import Runbook.Proofs.FloatOverflow
import Runbook.Proofs.LatestAnswer
import Runbook.Proofs.BatchAnswers

/-! What a condition consults. A variable takes its value from the entries whose key is its name in
some case, and all other entries could as well not be there. The name `answer` is the exception: it
stands for the latest value even where an entry of that name in another case has one. -/
namespace Runbook
open Text

def Key.spells (name : String) (k : Key) : Bool := lower k.display == lower name

namespace Store
variable {rs ts : Store} {name : String} {key : Key} {v : Value}

/-- The entries whose key is the name, ignoring case. -/
def entriesOf (rs : Store) (name : String) : Store := rs.filter (·.1.spells name)

theorem spells_of_same_text {k : Key} (h : k.same (.text name) = true) : k.spells name = true := by
  obtain rfl := Key.same_text_iff.1 h
  exact beq_self_eq_true _

theorem get?_entriesOf (rs : Store) (name : String) :
    (rs.entriesOf name).get? (.text name) = rs.get? (.text name) := by
  induction rs with
  | nil => rfl
  | cons head rest ih =>
    unfold entriesOf at ih ⊢
    cases hspells : head.1.spells name with
    | true => simp [hspells, get?, ih]
    | false =>
      have hsame : head.1.same (.text name) = false :=
        Bool.eq_false_iff.2 fun h => by simp [spells_of_same_text h] at hspells
      simp [hspells, get?, hsame, ih]

def firstUnder? (rs : Store) (name : String) : Option (Key × Value) :=
  rs.find? fun kv => kv.1.spells name && !kv.2.isNull

theorem lookupFolded_eq (rs : Store) (name : String) :
    rs.lookupFolded name = ((rs.firstUnder? name).map (·.2)).getD .null := by
  unfold lookupFolded
  split
  · next k v hfind =>
    have hfirst : rs.firstUnder? name = some (k, v) := hfind
    rw [hfirst]
    rfl
  · next hfind =>
    have hnone : rs.firstUnder? name = none := hfind
    rw [hnone]
    rfl

theorem firstUnder?_entriesOf (rs : Store) (name : String) :
    (rs.entriesOf name).firstUnder? name = rs.firstUnder? name := by
  rw [firstUnder?, firstUnder?, entriesOf, List.find?_filter]
  congr 1
  funext kv
  cases kv.1.spells name <;> simp

theorem lookup_of_ne_answer (hname : lower name ≠ "answer") (rs : Store) :
    rs.lookup name =
      if (rs.get (.text name)).isNull then rs.lookupFolded name else rs.get (.text name) := by
  cases hnull : (rs.get (.text name)).isNull <;> simp [lookup, hnull, hname]

theorem lookup_entriesOf (hname : lower name ≠ "answer") (rs : Store) :
    (rs.entriesOf name).lookup name = rs.lookup name := by
  rw [lookup_of_ne_answer hname, lookup_of_ne_answer hname, lookupFolded_eq, lookupFolded_eq, get,
    get, get?_entriesOf, firstUnder?_entriesOf]

/-- A write leaves the entries of a name alone if no key in its place spells the name. The key that is
in the store already keeps its spelling, so the one given does not tell. -/
theorem entriesOf_put (h : ∀ k : Key, k.same key = true → k.spells name = false) (rs : Store)
    (v : Value) : (rs.put key v).entriesOf name = rs.entriesOf name := by
  induction rs with
  | nil => simp [put, entriesOf, h key key.same_self]
  | cons head rest ih =>
    unfold entriesOf at ih ⊢
    cases hsame : head.1.same key with
    | true => simp [put, hsame, h head.1 hsame]
    | false => simp [put, hsame, List.filter_cons, ih]

/-- The value is that of the first entry under the name, ignoring case, which is not null. -/
def FirstUnder (rs : Store) (name : String) (v : Value) : Prop :=
  ∃ before k after, rs = before ++ (k, v) :: after ∧ k.spells name = true ∧ v.isNull = false ∧
    ∀ kw ∈ before, kw.1.spells name = true → kw.2.isNull = true

theorem firstUnder_iff : rs.FirstUnder name v ↔ ∃ k, rs.firstUnder? name = some (k, v) := by
  simp only [firstUnder?, List.find?_eq_some_iff_append]
  constructor
  · rintro ⟨before, k, after, rfl, hk, hv, hbefore⟩
    refine ⟨k, by simp [hk, hv], before, after, rfl, fun kw hkw => ?_⟩
    cases hs : kw.1.spells name with
    | true => simp [hbefore kw hkw hs]
    | false => rfl
  · rintro ⟨k, hkv, before, after, rfl, hbefore⟩
    rw [Bool.and_eq_true, Bool.not_eq_true'] at hkv
    refine ⟨before, k, after, rfl, hkv.1, hkv.2, fun kw hkw hs => ?_⟩
    simpa [hs] using hbefore kw hkw

theorem exists_firstUnder (h : ∃ kw ∈ rs, kw.1.spells name = true ∧ kw.2.isNull = false) :
    ∃ v, rs.FirstUnder name v := by
  obtain ⟨kw, hmem, hspells, hset⟩ := h
  have hsome : (rs.firstUnder? name).isSome = true :=
    List.find?_isSome.2 ⟨kw, hmem, by simp [hspells, hset]⟩
  obtain ⟨⟨k, v⟩, hfirst⟩ := Option.isSome_iff_exists.1 hsome
  exact ⟨v, firstUnder_iff.2 ⟨k, hfirst⟩⟩

theorem FirstUnder.lookupFolded_eq (h : rs.FirstUnder name v) : rs.lookupFolded name = v := by
  obtain ⟨k, hk⟩ := firstUnder_iff.1 h
  rw [Store.lookupFolded_eq, hk]
  rfl

/-- Where some entry under the name, ignoring case, is not null, there is a first such entry. The
lookup gives the value of the exact key, or if that is null the value of this first entry, exactly
unless the name is `answer`, the exact key has no value and the latest value is another one. -/
theorem lookup_stored (h : ∃ kw ∈ rs, kw.1.spells name = true ∧ kw.2.isNull = false) :
    ∃ v, rs.FirstUnder name v ∧
      (rs.lookup name =
          (if (rs.get (.text name)).isNull then v else rs.get (.text name)) ↔
        ¬((rs.get (.text name)).isNull = true ∧ lower name = "answer" ∧
          rs.latest.isNull = false ∧ rs.latest ≠ v)) := by
  obtain ⟨v, hv⟩ := exists_firstUnder h
  refine ⟨v, hv, ?_⟩
  by_cases hname : lower name = "answer"
  · cases hexact : (rs.get (.text name)).isNull with
    | false => simp [lookup, hexact]
    | true =>
      cases hlatest : rs.latest.isNull with
      | true => simp [lookup, hexact, hlatest, hv.lookupFolded_eq]
      | false => simp [lookup, hexact, hname, hlatest]
  · simp [lookup_of_ne_answer hname, hv.lookupFolded_eq, hname]

theorem spells_answer : (Key.text "Answer").spells "answer" = true := by decide +kernel

def reworded : Store :=
  [(.text "answer", .null), (.text "Answer", .text "yes"), (.text "note", .null)]

theorem lookup_stored_sample :
    (∃ kw ∈ reworded, kw.1.spells "answer" = true ∧ kw.2.isNull = false) ∧
      reworded.lookup "answer" = .text "yes" := by
  have hsome : ∃ kw ∈ reworded, kw.1.spells "answer" = true ∧ kw.2.isNull = false :=
    ⟨(.text "Answer", .text "yes"), by simp [reworded], spells_answer, rfl⟩
  obtain ⟨v, hv, hiff⟩ := lookup_stored hsome
  have hfirst : v = .text "yes" :=
    hv.lookupFolded_eq.symm.trans (Value.eq_text_of_same (by decide +kernel))
  have hexact : (reworded.get (.text "answer")).isNull = true := rfl
  refine ⟨hsome, ?_⟩
  rw [hiff.2 fun h => absurd h.2.2.1 (by decide), if_pos hexact, hfirst]

def annotated : Store := [(.text "Answer", .text "yes"), (.text "note", .text "late")]

/-- The latest value comes before an entry of the name `answer` in another case. -/
theorem answer_not_stored :
    ¬∀ (rs : Store) (name : String),
      (∃ kw ∈ rs, kw.1.spells name = true ∧ kw.2.isNull = false) →
      ∃ v, rs.FirstUnder name v ∧ rs.lookup name =
        if (rs.get (.text name)).isNull then v else rs.get (.text name) := by
  intro h
  obtain ⟨v, hv, hlookup⟩ := h annotated "answer"
    ⟨(.text "Answer", .text "yes"), by simp [annotated], spells_answer, rfl⟩
  have hfirst : v = .text "yes" :=
    hv.lookupFolded_eq.symm.trans (Value.eq_text_of_same (by decide +kernel))
  have hlatest : (annotated.lookup "answer").same (.text "late") = true := by decide +kernel
  have hexact : (annotated.get (.text "answer")).isNull = true := rfl
  rw [hlookup, if_pos hexact, hfirst] at hlatest
  exact absurd hlatest (by decide)

end Store

namespace Condition
variable {expression : Option String} {c : Condition} {rs ts : Store}

theorem eval_entriesOf (hname : lower c.name ≠ "answer") (rs : Store) :
    c.eval (rs.entriesOf c.name) = c.eval rs := by
  rw [eval, eval, Store.lookup_entriesOf hname]

theorem truth_congr (hother : ∀ c ∈ expression.bind parse?, lower c.name ≠ "answer")
    (h : ∀ c ∈ expression.bind parse?, rs.entriesOf c.name = ts.entriesOf c.name) :
    truth expression rs = truth expression ts := by
  cases expression with
  | none => rfl
  | some e =>
    change holds e rs = holds e ts
    unfold holds
    split
    · next c hc => rw [← eval_entriesOf (hother c hc), h c hc, eval_entriesOf (hother c hc)]
    · rfl

/-- The truth of a text depends only on the entries under its variable, ignoring case, and not on
whether these stand between others; so a write under another key leaves it as it is. Keys share a
place where they are equal as data, as those for one and true. -/
theorem truth_of_own_entries
    (hother : ∀ c ∈ expression.bind parse?, lower c.name ≠ "answer") :
    (∀ rs ts : Store,
      (∀ c ∈ expression.bind parse?, rs.entriesOf c.name = ts.entriesOf c.name) →
      truth expression rs = truth expression ts) ∧
    ∀ (rs : Store) (key : Key) (v : Value),
      (∀ c ∈ expression.bind parse?, ∀ k : Key, k.same key = true → k.spells c.name = false) →
      truth expression (rs.put key v) = truth expression rs :=
  ⟨fun _ _ h => truth_congr hother h, fun rs _ v hkey =>
    truth_congr hother fun c hc => Store.entriesOf_put (hkey c hc) rs v⟩

def counted : Store := [(.text "count", .whole 3), (.text "note", .text "high")]

def recounted : Store := [(.text "mood", .null), (.text "count", .whole 3)]

theorem truth_of_own_entries_sample :
    (∀ c ∈ (some "Count >= 3").bind parse?, lower c.name ≠ "answer") ∧
      counted.entriesOf "Count" = recounted.entriesOf "Count" ∧
      truth (some "Count >= 3") counted = truth (some "Count >= 3") recounted ∧
      truth (some "Count >= 3") (counted.put (.text "Answer") (.text "no")) =
        truth (some "Count >= 3") counted := by
  have hparse : (some "Count >= 3").bind parse? = some ⟨"Count", .ge, .numeral "3"⟩ := by
    decide +kernel
  have honly : ∀ c ∈ (some "Count >= 3").bind parse?, c = ⟨"Count", .ge, .numeral "3"⟩ :=
    fun c hc => Option.some.inj (hc.symm.trans hparse)
  have hother : ∀ c ∈ (some "Count >= 3").bind parse?, lower c.name ≠ "answer" := by
    intro c hc
    obtain rfl := honly c hc
    decide +kernel
  have hentries : counted.entriesOf "Count" = recounted.entriesOf "Count" := by
    have hcount : (Key.text "count").spells "Count" = true := by decide +kernel
    have hnote : (Key.text "note").spells "Count" = false := by decide +kernel
    have hmood : (Key.text "mood").spells "Count" = false := by decide +kernel
    simp [counted, recounted, Store.entriesOf, hcount, hnote, hmood]
  obtain ⟨hstores, hwrite⟩ := truth_of_own_entries hother
  refine ⟨hother, hentries, hstores _ _ fun c hc => ?_, hwrite _ _ _ fun c hc k hk => ?_⟩
  · obtain rfl := honly c hc
    exact hentries
  · obtain rfl := honly c hc
    obtain rfl := Key.same_text_iff.1 hk
    decide +kernel

end Condition
end Runbook
