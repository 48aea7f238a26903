import Runbook.Proofs.RouteAlignment
import Runbook.Proofs.RecordParts

/-! The older form of a decision and the branch form that says the same. A blank condition or target
is dropped in one place for the older form and in another for branches, and either way the decision
that is read chooses alike. -/
namespace Runbook

namespace Fields
variable {f g : Fields} {n : String} {v w : Value} {names : List String}

theorem get?_without (f : Fields) (h : n ∉ names) : (f.without names).get? n = f.get? n := by
  induction f with
  | nil => rfl
  | cons head rest ih =>
    have hcons : without names (head :: rest) =
        if head.1 ∈ names then without names rest else head :: without names rest := by
      by_cases hc : head.1 ∈ names <;> simp [without, hc]
    by_cases hname : head.1 = n
    · simp [hcons, h, get?, hname]
    · by_cases hc : head.1 ∈ names <;> simp [hcons, hc, get?, hname, ih]

theorem put_put (f : Fields) (n : String) (v w : Value) : (f.put n v).put n w = f.put n w := by
  induction f with
  | nil => simp [put]
  | cons head rest ih =>
    by_cases h : head.1 = n
    · simp [put, h]
    · simp [put, h, ih]

end Fields

namespace Reading
variable {α : Type} {f g : Fields} {n : String} {names : List String} {absent : Reading α}
  {read : Value → Reading α}

theorem used?_congr (h : ∀ n ∈ names, f.get? n = g.get? n) : used? f names = used? g names := by
  unfold used?
  induction names with
  | nil => rfl
  | cons n names ih =>
    simp only [List.find?_cons, h n (.head _), ih fun m hm => h m (.tail _ hm)]

theorem field_congr (h : ∀ n ∈ names, f.get? n = g.get? n) :
    field f names absent read = field g names absent read := by
  unfold field
  rw [used?_congr h]
  split
  · next n hn =>
    have hmem : n ∈ names := List.mem_of_find?_eq_some hn
    rw [Fields.get, Fields.get, h n hmem]
  · rfl

theorem field_first {v : Value} (h : f.get? n = some v) :
    field f (n :: names) absent read = (read v).under (.field n) := by
  simp [field, used?, Fields.get, h]

theorem field_none (h : ∀ n ∈ names, f.get? n = none) : field f names absent read = absent := by
  have hnone : used? f names = none := List.find?_eq_none.2 fun n hn => by simp [h n hn]
  simp [field, hnone]

end Reading

namespace Definition

def decisionNames : List String := legacyNames ++ "branches" :: elseNames

namespace Decision
open Reading
variable {f g : Fields} {names : List String} {c t e : String}

/-- The record has the text under one of the names, and nothing under the others. -/
def Holds (f : Fields) (names : List String) (t : String) : Prop :=
  ∃ n ∈ names, f.get? n = some (.text t) ∧ ∀ m ∈ names, m ≠ n → f.get? m = none

/-- The older form: a condition, a target for when it holds and one for when it does not. -/
structure Older (f : Fields) (condition whenTrue whenFalse : String) : Prop where
  condition : f.get? "condition" = some (.text condition)
  whenTrue : Holds f trueNames whenTrue
  whenFalse : Holds f falseNames whenFalse
  noBranches : f.get? "branches" = none
  noElse : ∀ n ∈ elseNames, f.get? n = none

/-- The branch form: one branch with the condition and the target, and an else target. -/
structure Branched (f : Fields) (condition whenTrue whenFalse : String) : Prop where
  branch : ∃ b : Fields, f.get? "branches" = some (.list [.record b]) ∧
    b.get? "condition" = some (.text condition) ∧ b.get? "target" = some (.text whenTrue)
  otherwise : f.get? "else_target" = some (.text whenFalse)
  notOlder : ∀ n ∈ legacyNames, f.get? n = none

def unlessBlank (t : String) : Value := if Text.allBlank t then .null else .text t

theorem present_unlessBlank (t : String) : (unlessBlank t).present = !Text.allBlank t := by
  unfold unlessBlank
  split
  · next h => rw [h]; rfl
  · rfl

theorem reference?_unlessBlank (t : String) :
    reference? (unlessBlank t) = reference? (.text t) := by
  cases h : Text.allBlank t <;> simp [unlessBlank, reference?, h]

theorem firstPresent_of_holds (h : Holds f names t) : firstPresent f names = unlessBlank t := by
  obtain ⟨n, hn, hget, hrest⟩ := h
  have hmem : Value.text t ∈ names.map f.get :=
    List.mem_map.2 ⟨n, hn, by rw [Fields.get, hget]; rfl⟩
  have honly : ∀ v ∈ names.map f.get, v.present = true → v = .text t := by
    intro v hv hpresent
    obtain ⟨m, hm, rfl⟩ := List.mem_map.1 hv
    by_cases hmn : m = n
    · rw [hmn, Fields.get, hget]
      rfl
    · rw [Fields.get, hrest m hm hmn] at hpresent
      cases hpresent
  unfold firstPresent unlessBlank
  cases hfind : (names.map f.get).find? (·.present) with
  | none =>
    have hblank : Text.allBlank t = true := by
      simpa [Value.present] using List.find?_eq_none.1 hfind _ hmem
    rw [if_pos hblank]
    rfl
  | some v =>
    have hpresent : v.present = true := List.find?_some hfind
    obtain rfl := honly v (List.mem_of_find?_eq_some hfind) hpresent
    have hblank : Text.allBlank t = false := by simpa [Value.present] using hpresent
    simp [hblank]

theorem firstPresent_of_none (h : ∀ n ∈ names, f.get? n = none) : firstPresent f names = .null := by
  have hnone : (names.map f.get).find? (·.present) = none := by
    refine List.find?_eq_none.2 fun v hv => ?_
    obtain ⟨n, hn, rfl⟩ := List.mem_map.1 hv
    simp [Fields.get, h n hn, Value.present]
  rw [firstPresent, hnone]
  rfl

theorem get?_rest (f : Fields) (bs : Value) {n : String} (hb : "branches" ≠ n)
    (hl : n ∉ legacyNames) : ((f.without legacyNames).put "branches" bs).get? n = f.get? n := by
  rw [Fields.get?_put_ne _ _ hb, Fields.get?_without _ hl]

theorem elseNames_apart : ∀ n ∈ elseNames, "branches" ≠ n ∧ n ∉ legacyNames := by decide

theorem get?_canonical (f : Fields) {n : String} (h : n ∉ decisionNames) :
    (canonical f).get? n = f.get? n := by
  have hlegacy : n ∉ legacyNames := fun hn => h (List.mem_append_left _ hn)
  have hbranches : "branches" ≠ n := by
    rintro rfl
    exact h (by decide)
  have helse : "else_target" ≠ n := by
    rintro rfl
    exact h (by decide)
  have hwithout := Fields.get?_without f hlegacy
  simp only [legacyNames] at hwithout
  unfold canonical
  simp only
  split
  · rw [Fields.get?_put_ne _ _ hbranches, hwithout]
  · split <;> split <;>
      simp only [Fields.get?_put_ne _ _ hbranches, Fields.get?_put_ne _ _ helse, hwithout]

def olderBranches (c t : String) : List Value :=
  if Text.allBlank c then [] else [.record [("condition", .text c), ("target", unlessBlank t)]]

theorem Older.canonical_eq (h : Older f c t e) (hsome : ¬(Text.allBlank t ∧ Text.allBlank e)) :
    canonical f =
      let rest := (f.without legacyNames).put "branches" (.list (olderBranches c t))
      if Text.allBlank e then rest else rest.put "else_target" (.text e) := by
  have hcondition : firstPresent f ["condition"] = unlessBlank c := by
    refine firstPresent_of_holds ⟨"condition", .head _, h.condition, fun m hm hne => ?_⟩
    exact absurd (List.mem_singleton.1 hm) hne
  have hkept : keptBranches f = [] := by
    rw [keptBranches, Fields.get, h.noBranches]
    rfl
  have helse : ∀ bs, firstPresent ((f.without ("condition" :: trueNames ++ falseNames)).put
      "branches" bs) ["else_target", "else_path"] = .null := by
    refine fun bs => firstPresent_of_none fun n hn => ?_
    obtain ⟨hbranches, hlegacy⟩ := elseNames_apart n hn
    exact (get?_rest f bs hbranches hlegacy).trans (h.noElse n hn)
  have hpresent : (!Text.allBlank t || !Text.allBlank e) = true := by
    cases ht : Text.allBlank t <;> cases he : Text.allBlank e <;> simp_all
  have hnull : Value.null.present = false := rfl
  simp only [canonical, hcondition, firstPresent_of_holds h.whenTrue,
    firstPresent_of_holds h.whenFalse, hkept, present_unlessBlank, hpresent, List.isEmpty_nil,
    Bool.not_true, Bool.or_self, Bool.false_eq_true, if_false, legacyNames, olderBranches]
  cases hc : Text.allBlank c <;> cases he : Text.allBlank e <;>
    simp only [hc, he, unlessBlank, helse, hnull, Fields.put_put, Bool.not_true, Bool.not_false,
      Bool.and_self, Bool.false_and, Bool.false_eq_true, if_true, if_false]

theorem Branched.canonical_eq (h : Branched f c t e) :
    ∃ b : Fields, b.get? "condition" = some (.text c) ∧ b.get? "target" = some (.text t) ∧
      canonical f =
        (f.without legacyNames).put "branches" (.list ([.record b].filter isKept)) := by
  obtain ⟨b, hbranches, hcondition, htarget⟩ := h.branch
  refine ⟨b, hcondition, htarget, ?_⟩
  have hkept : keptBranches f = [.record b].filter isKept := by
    rw [keptBranches, Fields.get, hbranches]
    rfl
  have hnone : ∀ names : List String, (∀ n ∈ names, n ∈ legacyNames) →
      firstPresent f names = .null :=
    fun names hnames => firstPresent_of_none fun n hn => h.notOlder n (hnames n hn)
  simp only [canonical, hkept, hnone trueNames (by decide), hnone falseNames (by decide),
    legacyNames]
  simp [Value.present]

/-- The branch that either form comes to. -/
def branchOf (c t : String) : Branch := ⟨reference? (.text c), reference? (.text t)⟩

theorem readBranch_text {b : Fields} {v : Value} (hc : b.get? "condition" = some (.text c))
    (ht : b.get? "target" = some v) (hv : reference? v = reference? (.text t)) :
    readBranch (.record b) = pure (branchOf c t) := by
  have hcondition : trimmedText (.text c) = pure (reference? (.text c)) := by
    cases hb : Text.allBlank c <;> simp [trimmedText, Value.trimmed, reference?, hb] <;> rfl
  have htarget : reference v = pure (reference? (.text t)) := congrArg pure hv
  simp only [readBranch, model, field_some hc hcondition, field_some ht htarget, pure_bind]
  rfl

theorem list_readBranch {b : Fields} (h : readBranch (.record b) = pure (branchOf c t)) :
    list .data readBranch (.list [.record b]) = pure [branchOf c t] := by
  simp only [list, items, h, under_pure, pure_bind]

theorem firstBranch?_branchOf (hc : Text.allBlank c = true) (rs : Store) :
    Workflow.firstBranch? rs [] = Workflow.firstBranch? rs [branchOf c t] := by
  simp [Workflow.firstBranch?_cons, branchOf, reference?, hc]

/-- The decision chooses as one with this branch and this else target. -/
def Chooses (body : Body) (c t e : String) : Prop :=
  ∃ d : Runbook.Decision, body = .decision d ∧ d.elseTarget = reference? (.text e) ∧
    ∀ rs, Workflow.firstBranch? rs d.branches = Workflow.firstBranch? rs [branchOf c t]

theorem Chooses.alike {b b' : Body} (h : Chooses b c t e) (h' : Chooses b' c t e) : b.Alike b' := by
  obtain ⟨d, rfl, helse, hfirst⟩ := h
  obtain ⟨d', rfl, helse', hfirst'⟩ := h'
  exact .decision (fun rs => (hfirst rs).trans (hfirst' rs).symm) (helse.trans helse'.symm)

theorem readBody_decision {simple : Bool} {bs : List Branch} {o : Option String}
    (hb : field f ["branches"] (pure []) (list .data readBranch) = pure bs)
    (ho : field f elseNames (pure none) reference = pure o) :
    readBody f (.decision simple) = pure (.decision ⟨simple, bs, o⟩) := by
  simp only [readBody, hb, ho, pure_bind]

theorem Older.readBody (h : Older f c t e) (hsome : ¬(Text.allBlank t ∧ Text.allBlank e))
    (simple : Bool) :
    ∃ b, readBody (canonical f) (.decision simple) = pure b ∧ Chooses b c t e := by
  have hbranches : (canonical f).get? "branches" = some (.list (olderBranches c t)) := by
    rw [h.canonical_eq hsome]
    dsimp only
    split
    · exact Fields.get?_put_self ..
    · rw [Fields.get?_put_ne _ _ (by decide)]
      exact Fields.get?_put_self ..
  have helse : field (canonical f) elseNames (pure none) reference =
      pure (reference? (.text e)) := by
    rw [h.canonical_eq hsome]
    cases he : Text.allBlank e with
    | true =>
      have hreference : reference? (.text e) = none := by simp [reference?, he]
      rw [if_pos rfl, hreference]
      refine field_none fun n hn => ?_
      obtain ⟨hbranches, hlegacy⟩ := elseNames_apart n hn
      exact (get?_rest f _ hbranches hlegacy).trans (h.noElse n hn)
    | false => exact field_some (Fields.get?_put_self ..) rfl
  cases hc : Text.allBlank c with
  | true =>
    have hread : list .data readBranch (.list (olderBranches c t)) = pure [] := by
      rw [olderBranches, if_pos hc]
      rfl
    exact ⟨_, readBody_decision (field_some hbranches hread) helse, _, rfl, rfl,
      firstBranch?_branchOf hc⟩
  | false =>
    have hread : list .data readBranch (.list (olderBranches c t)) = pure [branchOf c t] := by
      rw [olderBranches, if_neg (by simp [hc])]
      exact list_readBranch (readBranch_text rfl rfl (reference?_unlessBlank t))
    exact ⟨_, readBody_decision (field_some hbranches hread) helse, _, rfl, rfl, fun _ => rfl⟩

theorem Branched.readBody (h : Branched f c t e) (simple : Bool) :
    ∃ b, readBody (canonical f) (.decision simple) = pure b ∧ Chooses b c t e := by
  obtain ⟨b, hcondition, htarget, hcanonical⟩ := h.canonical_eq
  have hbranches : (canonical f).get? "branches" = some (.list ([.record b].filter isKept)) := by
    rw [hcanonical]
    exact Fields.get?_put_self ..
  have helse : field (canonical f) elseNames (pure none) reference =
      pure (reference? (.text e)) := by
    refine field_some ?_ rfl
    rw [hcanonical, get?_rest f _ (by decide) (by decide), h.otherwise]
  cases hkept : isKept (.record b) with
  | true =>
    have hread : list .data readBranch (.list ([.record b].filter isKept)) =
        pure [branchOf c t] := by
      rw [List.filter_cons_of_pos hkept]
      exact list_readBranch (readBranch_text hcondition htarget rfl)
    exact ⟨_, readBody_decision (field_some hbranches hread) helse, _, rfl, rfl, fun _ => rfl⟩
  | false =>
    have hread : list .data readBranch (.list ([.record b].filter isKept)) = pure [] := by
      rw [List.filter_cons_of_neg (by simp [hkept])]
      rfl
    have hblank : Text.allBlank c = true := by
      have hnot : (Fields.get b "condition").present = false := (Bool.or_eq_false_iff.1 hkept).1
      simpa [Fields.get, hcondition, Value.present] using hnot
    exact ⟨_, readBody_decision (field_some hbranches hread) helse, _, rfl, rfl,
      firstBranch?_branchOf hblank⟩

end Decision
end Definition
end Runbook
