import ScriptCompiler.Proofs.StaticText
import ScriptCompiler.Proofs.StringLiteral
import ScriptCompiler.Proofs.StringPieces

/-!
# Reading quoted text

Text between quotes, as it is written for scripts, is also a string token of programs. It is taken
apart into no letters, a single quote at each end and a body, and the body decodes to the text.
Lowering a literal that was lowered already therefore changes nothing.
-/

namespace ScriptCompiler.Literal

variable {quote : Char}

theorem decode_of_escape {c : Char} {written rest : List Char}
    (h : escape (written ++ rest) = .ok ([c], written.length)) :
    decode ('\\' :: written ++ rest) = (decode rest).map (c :: ·) := by
  rw [List.cons_append, decode_escape, h]
  show (decode ((written ++ rest).drop written.length)).map _ = _
  rw [List.drop_left]
  rfl

theorem escape_hexByte {c : Char} (h : c.toNat < 256) (rest : List Char) :
    escape ('x' :: hexByte c.toNat ++ rest) = .ok ([c], 3) := by
  have hnumber : ∀ n : Fin 256, number? 16 (hexByte n) = some n.val ∧ isScalar n = true := by
    decide +kernel
  obtain ⟨hdigits, hscalar⟩ := hnumber ⟨c.toNat, h⟩
  show hexEscape 2 (hexByte c.toNat ++ rest) = _
  have htake : (hexByte c.toNat ++ rest).take 2 = hexByte c.toNat := rfl
  simp [hexEscape, htake, hdigits, hscalar, show (hexByte c.toNat).length = 2 from rfl]

theorem decode_quoteChar_append (hquote : isQuote quote = true) (c : Char) (rest : List Char) :
    decode (quoteChar quote c ++ rest) = (decode rest).map (c :: ·) := by
  unfold quoteChar
  split_ifs with hslash hfeed hreturn htab hline hparagraph hsame hcontrol
  · subst hslash
    exact decode_of_escape rfl
  · exact decode_of_escape (hfeed ▸ rfl)
  · exact decode_of_escape (hreturn ▸ rfl)
  · exact decode_of_escape (htab ▸ rfl)
  · exact decode_of_escape (hline ▸ rfl)
  · exact decode_of_escape (hparagraph ▸ rfl)
  · subst hsame
    have hc : c = '\x27' ∨ c = '"' := by simpa [isQuote] using hquote
    rcases hc with rfl | rfl <;> exact decode_of_escape rfl
  · have hlt : c.toNat < 256 := by
      simp only [Bool.or_eq_true, decide_eq_true_eq] at hcontrol
      omega
    exact decode_of_escape (escape_hexByte hlt rest)
  · exact decode_cons hslash rest

theorem decode_flatMap_quoteChar (hquote : isQuote quote = true) (v : List Char) :
    decode (v.flatMap (quoteChar quote)) = .ok v := by
  induction v with
  | nil => rfl
  | cons c v ih =>
    rw [List.flatMap_cons, decode_quoteChar_append hquote, ih]
    rfl

/-- No body starts with its own quote, so the quotes are not taken for those of a long string. -/
theorem quoteSize_flatMap_quoteChar (hquote : isQuote quote = true) (v : List Char) :
    quoteSize (quote :: (v.flatMap (quoteChar quote) ++ [quote])) = 1 := by
  have hslash : quote ≠ '\\' := by
    rintro rfl
    cases hquote
  have hsize : ∀ {d : Char} (rest : List Char), quote ≠ d → quoteSize (quote :: d :: rest) = 1 := by
    intro d rest hne
    cases rest with
    | nil => rfl
    | cons e rest => simp [quoteSize, hne]
  cases v with
  | nil => rfl
  | cons c v =>
    rw [List.flatMap_cons]
    have hwritten := Script.written_quoteChar hquote c
    generalize quoteChar quote c = written at hwritten
    cases hwritten with
    | plain hplain => exact hsize _ hplain.2.1.symm
    | escape e more => exact hsize _ hslash

/-- A token without letters, with one quote at each end of its body. -/
def StringParts.ofBody (body : List Char) : StringParts where
  flags := ⟨false, false, false⟩
  body := body
  first := 1
  last := 1 + byteCount body

theorem splitString?_quoted (v : List Char) :
    splitString? (quoted v) = some (.ofBody (v.flatMap (quoteChar (quoteFor v)))) := by
  have hquote := Script.isQuote_quoteFor v
  show splitString? ([] ++ (List.replicate 1 (quoteFor v) ++ (v.flatMap (quoteChar (quoteFor v)) ++
    List.replicate 1 (quoteFor v)))) = _
  exact splitString?_eq (by simp) hquote (by decide) (quoteSize_flatMap_quoteChar hquote v)

theorem StringParts.checked_ofBody (body : List Char) :
    (StringParts.ofBody body).checked = .ok () := by
  simp [StringParts.checked, StringParts.isCut, StringParts.ofBody]

theorem stringValue_quoted (v : List Char) : stringValue (quoted v) = .ok v := by
  rw [stringValue, splitString?_quoted]
  dsimp only
  rw [StringParts.checked_ofBody]
  exact decode_flatMap_quoteChar (Script.isQuote_quoteFor v) v

/-- Quoted text is a token without letters and with one quote at each end, and it reads as the text
it was made from. So a literal is lowered to itself. -/
theorem quoted_reads_back :
    (∀ v : List Char, stringValue (quoted v) = .ok v ∧
      ∃ quote body, isQuote quote = true ∧ quoted v = quote :: body ++ [quote] ∧
        splitString? (quoted v) = some (.ofBody body) ∧ decode body = .ok v) ∧
    ∀ token out : List Char, lowerString token = .ok out → lowerString out = .ok out := by
  constructor
  · intro v
    have hquote := Script.isQuote_quoteFor v
    exact ⟨stringValue_quoted v, quoteFor v, _, hquote, rfl, splitString?_quoted v,
      decode_flatMap_quoteChar hquote v⟩
  · intro token out h
    unfold lowerString at h
    cases hvalue : stringValue token with
    | error f =>
      rw [hvalue] at h
      cases h
    | ok v =>
      rw [hvalue] at h
      cases h
      show (stringValue (quoted v)).bind (fun v => .ok (quoted v)) = .ok (quoted v)
      rw [stringValue_quoted]
      rfl

/-- A long raw string with both quotes, a backslash and a control character in it. -/
theorem quoted_reads_back_of_longString :
    lowerString "R\"\"\"'\\\"\x01\"\"\"".toList = .ok "'\\'\\\\\"\\x01'".toList ∧
      lowerString "'\\'\\\\\"\\x01'".toList = .ok "'\\'\\\\\"\\x01'".toList := by
  have h : lowerString "R\"\"\"'\\\"\x01\"\"\"".toList = .ok "'\\'\\\\\"\\x01'".toList := by
    decide +kernel
  exact ⟨h, quoted_reads_back.2 _ _ h⟩

end ScriptCompiler.Literal
