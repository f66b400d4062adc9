import TokenRing.Lib.Lts

/-!
Two kinds of elements of a list, such that between any two of the first kind
there is one of the second. Along a run this says that a flag that the first
kind raises and the second lowers is never up when it is to be raised.
-/

variable {α : Type*} {p q : α → Bool} {a : α} {l : List α}

/-- Every `p` comes after a `q`. -/
def Preceded (p q : α → Bool) (l : List α) : Prop :=
  ∀ middle b after, l = middle ++ b :: after → p b = true → ∃ c ∈ middle, q c = true

/-- Between any two `p` there is a `q`. -/
def Separated (p q : α → Bool) (l : List α) : Prop :=
  ∀ before a after, l = before ++ a :: after → p a = true → Preceded p q after

theorem preceded_nil : Preceded p q [] := by
  intro middle b after hsplit
  cases middle <;> cases hsplit

theorem separated_nil : Separated p q [] := by
  intro before a after hsplit
  cases before <;> cases hsplit

theorem preceded_cons :
    Preceded p q (a :: l) ↔ p a = false ∧ (q a = false → Preceded p q l) := by
  constructor
  · intro h
    constructor
    · by_contra hp
      obtain ⟨c, hmem, _⟩ := h [] a l rfl (by simpa using hp)
      cases hmem
    · rintro hq middle b after rfl hb
      obtain ⟨c, hmem, hc⟩ := h (a :: middle) b after rfl hb
      rcases List.mem_cons.mp hmem with rfl | hrest
      · rw [hq] at hc
        cases hc
      · exact ⟨c, hrest, hc⟩
  · rintro ⟨hp, hrest⟩ middle b after hsplit hb
    cases middle with
    | nil =>
        obtain ⟨rfl, rfl⟩ := List.cons.inj hsplit
        rw [hp] at hb
        cases hb
    | cons c more =>
        obtain ⟨rfl, rfl⟩ := List.cons.inj hsplit
        by_cases hq : q a = true
        · exact ⟨a, List.mem_cons_self, hq⟩
        · obtain ⟨c, hmem, hc⟩ := hrest (by simpa using hq) more b after rfl hb
          exact ⟨c, List.mem_cons_of_mem _ hmem, hc⟩

theorem separated_cons :
    Separated p q (a :: l) ↔ (p a = true → Preceded p q l) ∧ Separated p q l := by
  constructor
  · intro h
    refine ⟨fun hp => h [] a l rfl hp, ?_⟩
    rintro before b after rfl
    exact h (a :: before) b after rfl
  · rintro ⟨hfirst, hrest⟩ before b after hsplit
    cases before with
    | nil =>
        obtain ⟨rfl, rfl⟩ := List.cons.inj hsplit
        exact hfirst
    | cons c more =>
        obtain ⟨_, rfl⟩ := List.cons.inj hsplit
        exact hrest more b after rfl

namespace Lts

variable {σ ε : Type*} {step : σ → ε → Option σ} {s t : σ} {e : ε} {labels : List ε}

/-- The steps of a run: each label with the state that it finds. -/
def visits (step : σ → ε → Option σ) (s : σ) : List ε → List (σ × ε)
  | [] => []
  | e :: labels =>
      match step s e with
      | some t => (s, e) :: visits step t labels
      | none => []

theorem visits_cons (hstep : step s e = some t) :
    visits step s (e :: labels) = (s, e) :: visits step t labels := by
  simp [visits, hstep]

/-- Every state on the way: the first one, and those after the first step. -/
theorem forall_prefix_cons {kept : σ → Prop} (hstep : step s e = some t) :
    (∀ done u, done <+: e :: labels → exec step s done = some u → kept u) ↔
      kept s ∧ ∀ done u, done <+: labels → exec step t done = some u → kept u := by
  constructor
  · intro h
    refine ⟨h [] s List.nil_prefix rfl, fun done u hdone hexec => ?_⟩
    refine h (e :: done) u (List.cons_prefix_cons.mpr ⟨rfl, hdone⟩) ?_
    rw [exec_cons, hstep]
    exact hexec
  · rintro ⟨hfirst, hlater⟩ done u hdone hexec
    cases done with
    | nil =>
        obtain rfl := Option.some.inj hexec
        exact hfirst
    | cons f done =>
        obtain ⟨rfl, hrest⟩ := List.cons_prefix_cons.mp hdone
        rw [exec_cons, hstep] at hexec
        exact hlater done u hrest hexec

/-- What only a `p` step with the flag up breaks is kept along a run exactly
when the `p` steps are separated by `q` steps. -/
theorem kept_iff_separated (p q : σ × ε → Bool) (flag : σ → Bool) {kept : σ → Prop}
    (hkept : ∀ s e t, kept s → step s e = some t →
      (kept t ↔ ¬ (p (s, e) = true ∧ flag s = true)))
    (hflag : ∀ s e t, step s e = some t →
      flag t = if p (s, e) then true else if q (s, e) then false else flag s)
    (hs : kept s) (labels : List ε) :
    (∀ done t, done <+: labels → exec step s done = some t → kept t) ↔
      (flag s = true → Preceded p q (visits step s labels)) ∧
        Separated p q (visits step s labels) := by
  induction labels generalizing s with
  | nil =>
      refine iff_of_true (fun done t hdone hexec => ?_) ⟨fun _ => preceded_nil, separated_nil⟩
      obtain rfl := List.prefix_nil.mp hdone
      obtain rfl := Option.some.inj hexec
      exact hs
  | cons e rest ih =>
      cases hstep : step s e with
      | none =>
          have hvisits : visits step s (e :: rest) = [] := by simp [visits, hstep]
          rw [hvisits]
          refine iff_of_true (fun done t hdone hexec => ?_) ⟨fun _ => preceded_nil, separated_nil⟩
          cases done with
          | nil =>
              obtain rfl := Option.some.inj hexec
              exact hs
          | cons f done =>
              obtain ⟨rfl, _⟩ := List.cons_prefix_cons.mp hdone
              rw [exec_cons, hstep] at hexec
              cases hexec
      | some t =>
          have hnext := hflag s e t hstep
          rw [forall_prefix_cons hstep, visits_cons hstep, preceded_cons, separated_cons]
          by_cases hbreak : p (s, e) = true ∧ flag s = true
          · have hbroken : ¬ kept t := fun ht => (hkept s e t hs hstep).mp ht hbreak
            refine iff_of_false (fun h => hbroken (h.2 [] t List.nil_prefix rfl)) ?_
            rintro ⟨hpreceded, _⟩
            have hnot := (hpreceded hbreak.2).1
            rw [hbreak.1] at hnot
            cases hnot
          · rw [ih ((hkept s e t hs hstep).mpr hbreak), hnext]
            cases hp : p (s, e) <;> cases hq : q (s, e) <;> cases hf : flag s <;>
              simp [hp, hf, hs] at hbreak ⊢

end Lts
