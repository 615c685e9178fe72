import Mathlib.Data.List.Basic
import ScriptCompiler.Proofs.StringLiteral

/-!
# The static parts of templates

A script reads a template as static parts with holes between them. `templateUnits?` is that reading,
with every escape of the language; what stands in a hole is taken as one unit. Each static text is
escaped by itself when a template is written, and reads back as itself, unless a dollar sign at its
end meets a brace at the front of the next one: the two open a hole.
-/

namespace ScriptCompiler.Script

/-! ## Reading a template -/

/-- The static parts of a template from inside of it on, after skipping the characters of what was
already read. The holes have the given texts, in order, and nothing follows the closing backquote. A
line end that is not escaped counts as a line feed. -/
def staticUnits? : Nat → List (List Char) → List Char → Option (List (List UInt16))
  | _, _, [] => none
  | skip + 1, holes, _ :: rest => staticUnits? skip holes rest
  | 0, holes, c :: rest =>
    if c = '\x60' then if rest = [] ∧ holes = [] then some [[]] else none
    else if c = '\\' then do
      let (units, used) ← escapeUnits? rest
      return (← staticUnits? used holes rest).modifyHead (units ++ ·)
    else if c = '$' ∧ rest.head? = some '\x7b' then do
      let hole ← holes.head?
      if hole ++ ['\x7d'] <+: rest.tail then return [] ::
        (← staticUnits? (hole.length + 2) holes.tail rest) else none
    else if c = '\r' then
      return (← staticUnits? (if rest.head? = some '\n' then 1 else 0) holes rest).modifyHead
        (codeUnits 0x0A ++ ·)
    else return (← staticUnits? 0 holes rest).modifyHead (codeUnits c.toNat ++ ·)

/-- The code units of the static parts of a template literal whose holes have the given texts; none
if the text is no such literal. -/
def templateUnits? (holes : List (List Char)) : List Char → Option (List (List UInt16))
  | '\x60' :: rest => staticUnits? 0 holes rest
  | _ => none

@[simp] theorem staticUnits?_skip (holes : List (List Char)) (seq rest : List Char) :
    staticUnits? seq.length holes (seq ++ rest) = staticUnits? 0 holes rest := by
  induction seq with
  | nil => rfl
  | cons c seq ih => exact ih

/-! ## What is written for static text -/

def StartsBrace (text : List Char) : Prop := text.head? = some '\x7b'

instance (text : List Char) : Decidable (StartsBrace text) := inferInstanceAs (Decidable (_ = _))

/-- The two ways to write a character of static text: as itself, or as an escape. -/
inductive Inscribed (c : Char) : List Char → Prop
  | plain (hslash : c ≠ '\\') (htick : c ≠ '\x60') (hreturn : c ≠ '\r') : Inscribed c [c]
  | escape (e : Char) (more : List Char)
      (hunits : ∀ rest, escapeUnits? (e :: more ++ rest) =
      some (codeUnits c.toNat, (e :: more).length)) : Inscribed c ('\\' :: e :: more)

variable {c : Char}

theorem Inscribed.of_written {e : Char} {more : List Char} (quote : Char)
    (h : Written quote c ('\\' :: e :: more)) : Inscribed c ('\\' :: e :: more) := by
  cases h with
  | escape _ _ hunits _ _ => exact .escape e more hunits

theorem inscribed_templateChar (c : Char) (next : Option Char) :
    Inscribed c (Literal.templateChar c next) := by
  unfold Literal.templateChar
  by_cases hslash : c = '\\'
  · subst hslash
    exact .of_written '"' (.letter (by decide) (by decide) (by decide) (by decide) (by decide))
  by_cases htick : c = '\x60'
  · subst htick
    exact .of_written '"' (.letter (by decide) (by decide) (by decide) (by decide) (by decide))
  split_ifs with hdollar hreturn hcontrol
  · obtain ⟨rfl, -⟩ : c = '$' ∧ _ := by simpa using hdollar
    exact .of_written '"' (.letter (by decide) (by decide) (by decide) (by decide) (by decide))
  · subst hreturn
    exact .of_written '"' (.letter (by decide) (by decide) (by decide) (by decide) (by decide))
  · have hsmall : c.toNat < 0x20 := by simp at hcontrol; omega
    exact .of_written '"' (.hex rfl (by omega))
  · exact .plain hslash htick hreturn

theorem Inscribed.staticUnits?_append {cs : List Char} (h : Inscribed c cs)
    (holes : List (List Char))
    (rest : List Char) (hhole : cs = ['$'] → ¬ StartsBrace rest) :
    staticUnits? 0 holes (cs ++ rest) =
      (staticUnits? 0 holes rest).map (List.modifyHead (codeUnits c.toNat ++ ·)) := by
  cases h with
  | plain hslash htick hreturn =>
    have hnot : ¬ (c = '$' ∧ rest.head? = some '\x7b') := by
      rintro ⟨rfl, hbrace⟩
      exact hhole rfl hbrace
    simp only [List.cons_append, List.nil_append, staticUnits?, htick, hslash, hnot,
      hreturn, if_false,
      Option.pure_def, Option.bind_eq_bind, Option.map_eq_bind, Function.comp_def]
  | escape e more hunits =>
    have htick : ('\\' : Char) ≠ '\x60' := by decide
    rw [List.cons_append, staticUnits?, if_neg htick, if_pos rfl, hunits]
    simp only [Option.pure_def, Option.bind_eq_bind, Option.bind_some, staticUnits?_skip,
      Option.map_eq_bind,
      Function.comp_def]

/-- The first character of what is written for a character is a brace only if the character is
one. -/
theorem startsBrace_templateChar_append (c : Char) (next : Option Char) (rest : List Char) :
    StartsBrace (Literal.templateChar c next ++ rest) ↔ c = '\x7b' := by
  unfold StartsBrace
  generalize hcs : Literal.templateChar c next = cs
  cases hcs ▸ inscribed_templateChar c next with
  | plain hslash htick hreturn => simp
  | escape e more hunits =>
    constructor
    · intro h
      simp at h
    · rintro rfl
      cases hcs

theorem startsBrace_templateText_append (v rest : List Char) :
    StartsBrace (Literal.templateText v ++ rest) ↔ StartsBrace (v ++ rest) := by
  cases v with
  | nil => rfl
  | cons c v =>
    rw [Literal.templateText, List.append_assoc, startsBrace_templateChar_append]
    simp [StartsBrace]

theorem templateChar_eq_dollar {next : Option Char} (h : Literal.templateChar c next = ['$']) :
    c = '$' ∧ next ≠ some '\x7b' := by
  have hc : c = '$' := by
    cases h ▸ inscribed_templateChar c next with
    | plain => rfl
  subst hc
  refine ⟨rfl, ?_⟩
  rintro rfl
  exact absurd h (by decide)

/-- A character of a text is written so that it opens no hole, whatever the text goes on with,
unless it is a dollar sign at the very end. -/
theorem not_startsBrace_of_templateChar {v rest : List Char}
    (hend : ¬ ((c :: v).getLast? = some '$' ∧ StartsBrace rest))
    (h : Literal.templateChar c v.head? = ['$']) :
    ¬ StartsBrace (Literal.templateText v ++ rest) := by
  obtain ⟨rfl, hnext⟩ := templateChar_eq_dollar h
  rw [startsBrace_templateText_append]
  cases v with
  | nil => exact fun hbrace => hend ⟨rfl, hbrace⟩
  | cons d v => exact hnext

theorem staticUnits?_templateText_append (holes : List (List Char)) (v rest : List Char)
    (hend : ¬ (v.getLast? = some '$' ∧ StartsBrace rest)) :
    staticUnits? 0 holes (Literal.templateText v ++ rest) =
      (staticUnits? 0 holes rest).map (List.modifyHead (textUnits v ++ ·)) := by
  induction v with
  | nil =>
    have hid : List.modifyHead (fun x : List UInt16 => textUnits [] ++ x) = id := by
      funext parts
      cases parts <;> rfl
    rw [hid, Option.map_id]
    rfl
  | cons c v ih =>
    have hend' : ¬ (v.getLast? = some '$' ∧ StartsBrace rest) := by
      cases v with
      | nil => simp
      | cons d v => exact hend
    rw [Literal.templateText, List.append_assoc,
      (inscribed_templateChar c v.head?).staticUnits?_append holes _
      (not_startsBrace_of_templateChar hend), ih hend', Option.map_map]
    simp only [Function.comp_def, List.modifyHead_modifyHead, textUnits, List.flatMap_cons,
      List.append_assoc]

/-- A dollar sign at the end of static text opens a hole together with a brace behind it, so that
the part ends before it. -/
theorem head?_of_staticUnits? {holes : List (List Char)} {v rest : List Char}
    {parts : List (List UInt16)}
    (h : staticUnits? 0 holes (Literal.templateText v ++ rest) = some parts)
    (hdollar : v.getLast? = some '$')
    (hbrace : StartsBrace rest) : parts.head? = some (textUnits v.dropLast) := by
  induction v generalizing parts with
  | nil => cases hdollar
  | cons c v ih =>
    cases v with
    | nil =>
      obtain rfl : c = '$' := by simpa using hdollar
      have htext : Literal.templateText ['$'] = ['$'] := by decide
      have hhead : rest.head? = some '\x7b' := hbrace
      rw [htext, List.cons_append, List.nil_append, staticUnits?, if_neg (by decide),
        if_neg (by decide),
        if_pos ⟨rfl, hhead⟩] at h
      obtain ⟨hole, -, h⟩ := Option.bind_eq_some_iff.mp h
      split_ifs at h
      obtain ⟨more, -, h⟩ := Option.bind_eq_some_iff.mp h
      cases h
      rfl
    | cons d v =>
      have hopens : Literal.templateChar c (some d) = ['$'] →
          ¬ StartsBrace (Literal.templateText (d :: v) ++ rest) := by
        intro hc
        rw [startsBrace_templateText_append]
        exact (templateChar_eq_dollar hc).2
      rw [Literal.templateText, List.head?_cons, List.append_assoc,
        (inscribed_templateChar c (some d)).staticUnits?_append holes _ hopens] at h
      obtain ⟨parts, hparts, rfl⟩ := Option.map_eq_some_iff.mp h
      have hhead := ih hparts (by simpa using hdollar)
      cases parts with
      | nil => cases hhead
      | cons part parts =>
        obtain rfl : part = _ := Option.some.inj hhead
        simp [textUnits]

/-! ## Written templates -/

/-- What a template is put together from. -/
inductive TemplateItem where
  /-- The value of static text. -/
  | static (value : List Char)
  /-- The text of a hole. -/
  | hole (text : List Char)

namespace TemplateItem

/-- An item as it is written, whatever stands around it. -/
def written : TemplateItem → List Char
  | .static value => Literal.templateText value
  | .hole text => '$' :: '\x7b' :: text ++ ['\x7d']

def hole? : TemplateItem → Option (List Char)
  | .static _ => none
  | .hole text => some text

/-- The static parts of a template: all that stands between two holes makes one part. -/
def parts : List TemplateItem → List (List Char)
  | [] => [[]]
  | .static value :: rest => (parts rest).modifyHead (value ++ ·)
  | .hole _ :: rest => [] :: parts rest

/-- The texts of the holes in order. -/
def holes (items : List TemplateItem) : List (List Char) := items.filterMap hole?

/-- Whether static text with a brace at its front comes next. -/
def startsBrace : List TemplateItem → Bool
  | [] | .hole _ :: _ => false
  | .static [] :: rest => startsBrace rest
  | .static (c :: _) :: _ => c = '\x7b'

/-- Whether a dollar sign at the end of static text meets a brace at the front of the next. -/
def opensHole : List TemplateItem → Bool
  | [] => false
  | .static value :: rest => (value.getLast? == some '$' && startsBrace rest) || opensHole rest
  | .hole _ :: rest => opensHole rest

def literal (items : List TemplateItem) : List Char := '\x60' :: items.flatMap written ++ ['\x60']

theorem modifyHead_append_injective (units : List UInt16) :
    Function.Injective (List.modifyHead (units ++ ·)) := by
  rintro (_ | ⟨a, more⟩) (_ | ⟨b, more'⟩) h <;> simp_all

theorem map_textUnits_modifyHead (value : List Char) (parts : List (List Char)) :
    (parts.modifyHead (value ++ ·)).map textUnits = (parts.map textUnits).modifyHead
    (textUnits value ++ ·) := by
  cases parts <;> simp [textUnits]

theorem parts_ne_nil (items : List TemplateItem) : parts items ≠ [] := by
  induction items with
  | nil => simp [parts]
  | cons item rest ih =>
    cases item with
    | static value => simpa [parts] using ih
    | hole text => simp [parts]

theorem startsBrace_iff (items : List TemplateItem) :
    startsBrace items = true ↔ StartsBrace (items.flatMap written ++ ['\x60']) := by
  fun_induction startsBrace items with
  | case1 => simp [StartsBrace]
  | case2 text rest => simp [StartsBrace, written]
  | case3 rest ih => simpa [written, Literal.templateText] using ih
  | case4 c value rest =>
    rw [List.flatMap_cons, written, List.append_assoc, startsBrace_templateText_append]
    simp [StartsBrace]

theorem staticUnits?_hole_append (text : List Char) (holes : List (List Char)) (rest : List Char) :
    staticUnits? 0 (text :: holes) (written (.hole text) ++ rest) =
    (staticUnits? 0 holes rest).map ([] :: ·) := by
  have hprefix : text ++ ['\x7d'] <+: text ++ '\x7d' :: rest := ⟨rest, by simp⟩
  have hskip : staticUnits? (text.length + 1) holes (text ++ '\x7d' :: rest) =
      staticUnits? 0 holes rest := by
    simpa using staticUnits?_skip holes (text ++ ['\x7d']) rest
  cases hunits : staticUnits? 0 holes rest <;> simp [written, staticUnits?, hprefix, hskip, hunits]

/-- Items written as a template are read as what they are, exactly if no two of them open a hole
together. -/
theorem staticUnits?_written_iff (items : List TemplateItem) :
    staticUnits? 0 (holes items) (items.flatMap written ++ ['\x60']) =
    some ((parts items).map textUnits) ↔
      opensHole items = false := by
  induction items with
  | nil => simp [holes, parts, opensHole, staticUnits?, textUnits]
  | cons item rest ih =>
    cases item with
    | static value =>
      have hholes : holes (.static value :: rest) = holes rest := rfl
      rw [hholes, List.flatMap_cons, written, List.append_assoc, parts, opensHole]
      by_cases hopens : value.getLast? = some '$' ∧ startsBrace rest = true
      · -- The first part ends before the dollar sign, so it is too short.
        obtain ⟨hdollar, hbrace⟩ := hopens
        simp only [hdollar, hbrace, beq_self_eq_true, Bool.and_self, Bool.true_or,
          Bool.true_eq_false, iff_false]
        intro hread
        have hhead := head?_of_staticUnits? hread hdollar ((startsBrace_iff rest).mp hbrace)
        obtain ⟨part, more, hparts⟩ := List.exists_cons_of_ne_nil (parts_ne_nil rest)
        rw [hparts] at hhead
        have hlength := congrArg List.length (textUnits_inj (Option.some.inj hhead))
        have hne : value ≠ [] := by
          rintro rfl
          cases hdollar
        have := List.length_pos_iff.mpr hne
        rw [List.length_append, List.length_dropLast] at hlength
        omega
      · have hend :
          ¬ (value.getLast? = some '$' ∧ StartsBrace (rest.flatMap written ++ ['\x60'])) := by
          rwa [← startsBrace_iff]
        have hnot : (value.getLast? == some '$' && startsBrace rest) = false := by
          simpa using hopens
        rw [staticUnits?_templateText_append _ _ _ hend, map_textUnits_modifyHead, hnot,
          Bool.false_or, ← ih,
          ← Option.map_some, (Option.map_injective (modifyHead_append_injective _)).eq_iff]
    | hole text =>
      rw [List.flatMap_cons, List.append_assoc]
      show staticUnits? 0 (text :: holes rest) _ = _ ↔ _
      rw [staticUnits?_hole_append, parts, opensHole, ← ih, List.map_cons, ← Option.map_some]
      exact (Option.map_injective List.cons_injective).eq_iff

end TemplateItem

end ScriptCompiler.Script
