import Mathlib.Data.List.Forall2
import Runbook.Proofs.ConditionText
import Runbook.Template

/-! How templates are filled. A text can be cut into slots and plain characters in just one way, from
left to right. Filling replaces the slots whose names have values and leaves everything else alone,
so what is inserted is never looked at, and only the names in the text count. -/
namespace Runbook.Template
open Text

/-- The names that a slot can have: word characters, and at least one. -/
structure IsName (name : String) : Prop where
  ne_nil : name.toList ≠ []
  word : name.toList.all isWord = true

/-- A slot stands at the front of the text. -/
def Opens (cs : List Char) : Prop := ∃ name, IsName name ∧ (Piece.slot name).source <+: cs

/-- The cut of a text from left to right: a slot where one opens, else a character for itself. -/
inductive Cut : List Char → List Piece → Prop where
  | nil : Cut [] []
  | slot {name : String} {cs : List Char} {ps : List Piece} : IsName name → Cut cs ps →
      Cut ((Piece.slot name).source ++ cs) (.slot name :: ps)
  | plain {c : Char} {cs : List Char} {ps : List Piece} : ¬Opens (c :: cs) → Cut cs ps →
      Cut (c :: cs) (.plain c :: ps)

section Cutting
variable {cs chars : List Char} {ps : List Piece} {name : String}

theorem slotName?_source (h : IsName name) (cs : List Char) :
    slotName? ((Piece.slot name).source ++ cs) = some name.toList := by
  have hsource : (Piece.slot name).source ++ cs =
      '\x7b' :: '\x7b' :: (name.toList ++ '\x7d' :: '\x7d' :: cs) := by simp [Piece.source]
  have hstop : ∀ c ∈ ('\x7d' :: '\x7d' :: cs).head?, isWord c = false := by simp [isWord]
  obtain ⟨c, rest, hchars⟩ := List.exists_cons_of_ne_nil h.ne_nil
  have htake := (takeWhile_append_stop h.word hstop).trans hchars
  have hdrop := dropWhile_append_stop h.word hstop
  simp only [hsource, slotName?, htake, hdrop]
  rw [hchars]

theorem source_of_slotName? (h : slotName? cs = some chars) :
    IsName (String.ofList chars) ∧
      ∃ rest, cs = (Piece.slot (String.ofList chars)).source ++ rest := by
  unfold slotName? at h
  split at h
  · next cs =>
    split at h
    · next c name rest htake hdrop =>
      cases h
      refine ⟨⟨by simp, ?_⟩, rest, ?_⟩
      · rw [String.toList_ofList, ← htake]
        exact List.all_takeWhile
      · have hsplit := List.takeWhile_append_dropWhile (p := isWord) (l := cs)
        rw [htake, hdrop] at hsplit
        simp [Piece.source, ← hsplit]
    · cases h
  · cases h

theorem opens_iff : Opens cs ↔ (slotName? cs).isSome = true := by
  constructor
  · rintro ⟨name, hname, rest, rfl⟩
    rw [slotName?_source hname]
    rfl
  · intro h
    obtain ⟨chars, hchars⟩ := Option.isSome_iff_exists.1 h
    obtain ⟨hname, rest, rfl⟩ := source_of_slotName? hchars
    exact ⟨_, hname, List.prefix_append ..⟩

theorem piecesFrom_append (front cs : List Char) :
    piecesFrom front.length (front ++ cs) = piecesFrom 0 cs := by
  induction front with
  | nil => rfl
  | cons c front ih => exact ih

theorem cut_piecesFrom (skip : Nat) (cs : List Char) :
    Cut (cs.drop skip) (piecesFrom skip cs) := by
  -- The induction is on the text, one character at a time, also where a slot spans several.
  induction cs generalizing skip with
  | nil =>
    rw [List.drop_nil, piecesFrom]
    exact .nil
  | cons c cs ih =>
    cases skip with
    | succ skip => exact ih skip
    | zero =>
      rw [List.drop_zero, piecesFrom]
      split
      · next chars hchars =>
        obtain ⟨hname, rest, hrest⟩ := source_of_slotName? hchars
        have hcs : cs.drop (chars.length + 3) = rest := by
          have hlength : (Piece.slot (String.ofList chars)).source.length = chars.length + 4 := by
            simp [Piece.source]
          have hdrop := congrArg (List.drop (chars.length + 4)) hrest
          rwa [← hlength, List.drop_left, hlength] at hdrop
        rw [hrest, ← hcs]
        exact .slot hname (ih _)
      · next hnone =>
        have hplain : ¬Opens (c :: cs) := by simp [opens_iff, hnone]
        exact .plain hplain (by simpa using ih 0)

theorem Cut.eq_piecesFrom (h : Cut cs ps) : ps = piecesFrom 0 cs := by
  induction h with
  | nil => rfl
  | @slot name cs ps hname _ ih =>
    have htail : (Piece.slot name).source ++ cs =
        '\x7b' :: ('\x7b' :: name.toList ++ ['\x7d', '\x7d'] ++ cs) := rfl
    have hlength :
        ('\x7b' :: name.toList ++ ['\x7d', '\x7d']).length = name.toList.length + 3 := by simp
    have hopen := slotName?_source hname cs
    rw [htail] at hopen ⊢
    simp only [piecesFrom, hopen, String.ofList_toList, ih, ← hlength, piecesFrom_append]
  | @plain c cs ps hplain _ ih =>
    rw [piecesFrom, ih]
    rw [opens_iff, Bool.not_eq_true, Option.isSome_eq_false_iff, Option.isNone_iff_eq_none] at hplain
    rw [hplain]

/-- A text can be cut in just one way. -/
theorem cut_iff : Cut cs ps ↔ ps = piecesFrom 0 cs :=
  ⟨Cut.eq_piecesFrom, fun h => h ▸ cut_piecesFrom 0 cs⟩

theorem Cut.source_eq (h : Cut cs ps) : ps.flatMap Piece.source = cs := by
  induction h with
  | nil => rfl
  | slot _ _ ih => rw [List.flatMap_cons, ih]
  | plain _ _ ih => simp [Piece.source, ih]

theorem Cut.exists_slot_iff (h : Cut cs ps) :
    (∃ name, .slot name ∈ ps) ↔ ∃ name, IsName name ∧ (Piece.slot name).source <:+: cs := by
  induction h with
  | nil => simp [Piece.source]
  | @slot name cs ps hname _ ih =>
    exact iff_of_true ⟨name, .head _⟩ ⟨name, hname, (List.prefix_append ..).isInfix⟩
  | @plain c cs ps hplain _ ih =>
    simp only [List.mem_cons, reduceCtorEq, false_or, ih]
    constructor
    · rintro ⟨name, hname, hinfix⟩
      exact ⟨name, hname, List.infix_cons hinfix⟩
    · rintro ⟨name, hname, hinfix⟩
      refine ⟨name, hname, (List.infix_cons_iff.1 hinfix).resolve_left fun hprefix => ?_⟩
      exact hplain ⟨name, hname, hprefix⟩

end Cutting

/-- The mapping has the value under the name: it is that of the last key with this text. -/
def Holds (values : Store) (name : String) (v : Value) : Prop :=
  ∃ before k after, values = before ++ (k, v) :: after ∧ k.display = name ∧
    ∀ kw ∈ after, kw.1.display ≠ name

/-- No key of the mapping has the name for its text. -/
def Lacks (values : Store) (name : String) : Prop := ∀ kw ∈ values, kw.1.display ≠ name

/-- Both mappings lack the name, or both have values under it whose texts are the same. -/
def Agree (values others : Store) (name : String) : Prop :=
  Lacks values name ∧ Lacks others name ∨
    ∃ v w, Holds values name v ∧ Holds others name w ∧ v.inserted = w.inserted

/-- What a piece becomes: a slot the text of its value, if there is one, and else itself. -/
inductive Renders (values : Store) : Piece → List Char → Prop where
  | plain (c : Char) : Renders values (.plain c) [c]
  | held {name : String} {v : Value} : Holds values name v →
      Renders values (.slot name) v.inserted.toList
  | unknown {name : String} : Lacks values name →
      Renders values (.slot name) (Piece.slot name).source

section Filling
variable {values others : Store} {name : String} {v : Value} {p : Piece} {text : String}

theorem binding?_eq_some_iff : binding? values name = some v ↔ Holds values name v := by
  rw [binding?, Option.map_eq_some_iff]
  constructor
  · rintro ⟨⟨k, w⟩, hfind, rfl⟩
    obtain ⟨hk, after, before, hsplit, hafter⟩ := List.find?_eq_some_iff_append.1 hfind
    refine ⟨before.reverse, k, after.reverse, ?_, by simpa using hk, fun kw hkw => ?_⟩
    · rw [← List.reverse_inj, hsplit]
      simp
    · simpa using hafter kw (List.mem_reverse.1 hkw)
  · rintro ⟨before, k, after, rfl, hk, hafter⟩
    refine ⟨(k, v), List.find?_eq_some_iff_append.2 ⟨by simpa using hk, after.reverse,
      before.reverse, by simp, fun kw hkw => ?_⟩, rfl⟩
    simpa using hafter kw (List.mem_reverse.1 hkw)

theorem binding?_eq_none_iff : binding? values name = none ↔ Lacks values name := by
  simp [binding?, Lacks]

theorem renders_fill (values : Store) (p : Piece) : Renders values p (p.fill values) := by
  cases p with
  | plain c => exact .plain c
  | slot name =>
    rw [Piece.fill]
    split
    · next v hv => exact .held (binding?_eq_some_iff.1 hv)
    · next hnone => exact .unknown (binding?_eq_none_iff.1 hnone)

theorem Agree.fill_eq (h : Agree values others name) :
    (Piece.slot name).fill values = (Piece.slot name).fill others := by
  obtain ⟨hvalues, hothers⟩ | ⟨v, w, hv, hw, htext⟩ := h
  · simp only [Piece.fill, binding?_eq_none_iff.2 hvalues, binding?_eq_none_iff.2 hothers]
  · simp only [Piece.fill, binding?_eq_some_iff.2 hv, binding?_eq_some_iff.2 hw, htext]

theorem Piece.name?_eq_some_iff : p.name? = some name ↔ p = .slot name := by
  cases p <;> simp [name?]

theorem mem_names : name ∈ names text ↔ .slot name ∈ pieces text := by
  simp [names, Piece.name?_eq_some_iff]

theorem hasSlots_iff : hasSlots text = true ↔ ∃ name, .slot name ∈ pieces text := by
  simp only [hasSlots, List.any_eq_true, Option.isSome_iff_exists, Piece.name?_eq_some_iff]
  constructor
  · rintro ⟨_, hp, name, rfl⟩
    exact ⟨name, hp⟩
  · rintro ⟨name, hp⟩
    exact ⟨_, hp, name, rfl⟩

theorem fill_congr
    (h : ∀ name ∈ names text, (Piece.slot name).fill values = (Piece.slot name).fill others) :
    fill values text = fill others text := by
  rw [fill, fill]
  congr 1
  refine List.flatMap_congr fun p hp => ?_
  cases p with
  | plain c => rfl
  | slot name => exact h name (mem_names.2 hp)

/-- Filling is one pass over the only cut of a text, whose slots are what the names of the text come
from: a slot becomes the text of its value or stays, and nothing that this brings about is looked at
again. So only the values under these names count, and without any of them the text stays as it is.
There are names exactly if some slot stands in the text, and this is what looking for one tells. Every
value has a text, whole numbers of any length included (`Value.display`). -/
theorem fill_onePass (values : Store) (text : String) :
    (∃ ps parts, (∀ qs, Cut text.toList qs ↔ qs = ps) ∧
      (∀ name, name ∈ names text ↔ .slot name ∈ ps) ∧
      List.Forall₂ (Renders values) ps parts ∧ fill values text = String.ofList parts.flatten) ∧
    (∀ others, (∀ name ∈ names text, Agree values others name) →
      fill values text = fill others text) ∧
    ((∀ name ∈ names text, Lacks values name) → fill values text = text) ∧
    (hasSlots text = true ↔ names text ≠ []) ∧
    (hasSlots text = true ↔
      ∃ name, IsName name ∧ (Piece.slot name).source <:+: text.toList) := by
  have hcut : Cut text.toList (pieces text) := cut_iff.2 rfl
  refine ⟨⟨pieces text, (pieces text).map (Piece.fill values), fun _ => cut_iff,
    fun _ => mem_names, ?_, ?_⟩, fun others h => ?_, fun h => ?_, ?_, ?_⟩
  · exact List.forall₂_map_right_iff.2 (List.forall₂_same.2 fun p _ => renders_fill values p)
  · rw [fill, List.flatMap_def]
  · exact fill_congr fun name hname => (h name hname).fill_eq
  · -- Without its values the mapping is as good as empty, and then every piece becomes itself.
    have hnone : fill values text = fill [] text :=
      fill_congr fun name hname => Agree.fill_eq (.inl ⟨h name hname, by simp [Lacks]⟩)
    have hsource : ∀ p : Piece, p.fill [] = p.source := fun p => by cases p <;> rfl
    rw [hnone, fill, funext hsource, hcut.source_eq, String.ofList_toList]
  · simp [hasSlots_iff, ← mem_names, List.eq_nil_iff_forall_not_mem]
  · rw [hasSlots_iff]
    exact hcut.exists_slot_iff

end Filling

def nested : String := "\x7b\x7b\x7buser\x7d\x7d\x7d"

def lost : Store := [(.text "user", .text "\x7bgone\x7d"), (.text "gone", .text "lost")]

def found : Store := [(.text "gone", .whole 1), (.text "user", .text "\x7bgone\x7d")]

theorem fill_onePass_sample :
    (∀ name ∈ names nested, Agree lost found name) ∧ fill lost nested = fill found nested ∧
      fill lost nested = "\x7b\x7bgone\x7d\x7d" := by
  have hnames : names nested = ["user"] := by decide +kernel
  have hagree : ∀ name ∈ names nested, Agree lost found name := by
    rw [hnames, List.forall_mem_singleton]
    exact .inr ⟨.text "\x7bgone\x7d", .text "\x7bgone\x7d",
      ⟨[], .text "user", [(.text "gone", .text "lost")], rfl, rfl, by decide⟩,
      ⟨[(.text "gone", .whole 1)], .text "user", [], rfl, rfl, by simp⟩, rfl⟩
  exact ⟨hagree, (fill_onePass lost nested).2.1 found hagree, by decide +kernel⟩

end Runbook.Template
