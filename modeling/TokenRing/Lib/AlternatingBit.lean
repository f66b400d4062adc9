import Mathlib.Logic.Function.Iterate

/-!
Receiving with one bit for each sender. The receiver expects a bit of each
sender; a message that carries it is new and flips it, any other message is a
duplicate. The messages at hand are a list, in the order in which their turn
comes.
-/

namespace AlternatingBit

variable {α κ σ : Type*} [DecidableEq κ] [DecidableEq σ] (key : α → κ) (bit : α → σ)
  (flip : σ → σ)

/-- The messages of one sender that are new when their turn comes. -/
def newOf (k : κ) (expected : σ) : List α → List α
  | [] => []
  | a :: rest =>
      if key a = k ∧ bit a = expected then a :: newOf k (flip expected) rest
      else newOf k expected rest

/-- The bit that is expected of the sender after them. -/
def bitAfter (k : κ) (expected : σ) : List α → σ
  | [] => expected
  | a :: rest =>
      if key a = k ∧ bit a = expected then bitAfter k (flip expected) rest
      else bitAfter k expected rest

/-- What is expected after a new message. -/
def advance (expected : κ → σ) (a : α) : κ → σ :=
  Function.update expected (key a) (flip (expected (key a)))

/-- No message is a duplicate. -/
def allNew (expected : κ → σ) : List α → Bool
  | [] => true
  | a :: rest => decide (bit a = expected (key a)) && allNew (advance key flip expected a) rest

/-- New messages of the sender have no duplicate in front of them. -/
def Shielded (k : κ) (expected : κ → σ) (l : List α) : Prop :=
  ∀ front a back, l = front ++ a :: back → key a = k →
    bit a = bitAfter key bit flip k (expected k) front → allNew key bit flip expected front = true

variable {key bit flip} {k : κ} {e : σ} {expected : κ → σ} {a : α} {l front back : List α}

theorem newOf_append (l m : List α) : newOf key bit flip k e (l ++ m) =
    newOf key bit flip k e l ++ newOf key bit flip k (bitAfter key bit flip k e l) m := by
  induction l generalizing e with
  | nil => rfl
  | cons a rest ih =>
      simp only [List.cons_append, newOf, bitAfter]
      split
      · rw [ih, List.cons_append]
      · exact ih

theorem bitAfter_append (l m : List α) : bitAfter key bit flip k e (l ++ m) =
    bitAfter key bit flip k (bitAfter key bit flip k e l) m := by
  induction l generalizing e with
  | nil => rfl
  | cons a rest ih =>
      simp only [List.cons_append, bitAfter]
      split <;> exact ih

/-- The expected bit counts the new messages. -/
theorem bitAfter_eq_iterate (l : List α) :
    bitAfter key bit flip k e l = flip^[(newOf key bit flip k e l).length] e := by
  induction l generalizing e with
  | nil => rfl
  | cons a rest ih =>
      simp only [bitAfter, newOf]
      split
      · rw [ih, List.length_cons, Function.iterate_succ_apply]
      · exact ih

/-- Messages that never carry the bit change nothing. -/
theorem newOf_quiet (flip : σ → σ) (h : ∀ a ∈ l, key a = k → bit a ≠ e) :
    newOf key bit flip k e l = [] ∧ bitAfter key bit flip k e l = e := by
  induction l with
  | nil => exact ⟨rfl, rfl⟩
  | cons a rest ih =>
      have hno : ¬ (key a = k ∧ bit a = e) := fun hboth =>
        h a List.mem_cons_self hboth.1 hboth.2
      simp only [newOf, bitAfter, if_neg hno]
      exact ih fun b hb => h b (List.mem_cons_of_mem _ hb)

/-- The first new message has none in front of it. -/
theorem exists_first_new (flip : σ → σ) (h : ∃ a ∈ l, key a = k ∧ bit a = e) :
    ∃ front a back, l = front ++ a :: back ∧ key a = k ∧ bit a = e ∧
      bitAfter key bit flip k e front = e := by
  induction l with
  | nil =>
      obtain ⟨a, hmem, _⟩ := h
      cases hmem
  | cons b rest ih =>
      by_cases hnew : key b = k ∧ bit b = e
      · exact ⟨[], b, rest, rfl, hnew.1, hnew.2, rfl⟩
      · obtain ⟨a, hmem, ha⟩ := h
        have hrest : a ∈ rest := by
          rcases List.mem_cons.mp hmem with rfl | hrest
          · exact absurd ha hnew
          · exact hrest
        obtain ⟨front, c, back, rfl, hkey, hbit, hafter⟩ := ih ⟨a, hrest, ha⟩
        refine ⟨b :: front, c, back, rfl, hkey, hbit, ?_⟩
        simpa only [bitAfter, if_neg hnew] using hafter

/-- A new message has had its turn. -/
theorem bitAfter_cons_new (hnew : bit a = expected (key a)) (l : List α) :
    bitAfter key bit flip k (expected k) (a :: l) =
      bitAfter key bit flip k (advance key flip expected a k) l := by
  by_cases hk : key a = k
  · subst hk
    simp [bitAfter, advance, hnew]
  · simp [bitAfter, advance, hk, Function.update_of_ne (Ne.symm hk)]

theorem newOf_cons_new (hnew : bit a = expected (key a)) (l : List α) :
    newOf key bit flip k (expected k) (a :: l) =
      (if key a = k then [a] else []) ++
        newOf key bit flip k (advance key flip expected a k) l := by
  by_cases hk : key a = k
  · subst hk
    simp [newOf, advance, hnew]
  · simp [newOf, advance, hk, Function.update_of_ne (Ne.symm hk)]

theorem newOf_cons_dup (hdup : bit a ≠ expected (key a)) (l : List α) :
    newOf key bit flip k (expected k) (a :: l) = newOf key bit flip k (expected k) l ∧
      bitAfter key bit flip k (expected k) (a :: l) = bitAfter key bit flip k (expected k) l := by
  have hno : ¬ (key a = k ∧ bit a = expected k) := by
    rintro ⟨rfl, hbit⟩
    exact hdup hbit
  simp only [newOf, bitAfter, if_neg hno, and_self]

/-- A message is put among the others, in front of none of the sender. -/
theorem newOf_insert (hback : ∀ b ∈ back, key b ≠ k) (a : α) :
    newOf key bit flip k e (front ++ a :: back) =
      newOf key bit flip k e (front ++ back) ++
        if key a = k ∧ bit a = bitAfter key bit flip k e (front ++ back) then [a] else [] := by
  have hquiet : ∀ e, newOf key bit flip k e back = [] ∧ bitAfter key bit flip k e back = e :=
    fun e => newOf_quiet flip fun b hb hkey => absurd hkey (hback b hb)
  rw [newOf_append, newOf_append, bitAfter_append, (hquiet _).1, (hquiet _).2, newOf,
    List.append_nil]
  split
  · rw [(hquiet _).1]
  · rw [(hquiet _).1]

theorem Shielded.insert (h : Shielded key bit flip k expected (front ++ back))
    (hback : ∀ b ∈ back, key b ≠ k)
    (hfront : key a = k → bit a = bitAfter key bit flip k (expected k) front →
      allNew key bit flip expected front = true) :
    Shielded key bit flip k expected (front ++ a :: back) := by
  intro start b rest hsplit hkey hbit
  rcases List.append_eq_append_iff.mp hsplit with
    ⟨middle, rfl, hrest⟩ | ⟨middle, rfl, hrest⟩
  · cases middle with
    | nil =>
        obtain ⟨rfl, rfl⟩ := List.cons.inj hrest
        rw [List.append_nil] at hbit ⊢
        exact hfront hkey hbit
    | cons c more =>
        obtain ⟨_, rfl⟩ := List.cons.inj hrest
        exact absurd hkey (hback b (List.mem_append_right _ List.mem_cons_self))
  · cases middle with
    | nil =>
        obtain ⟨rfl, rfl⟩ := List.cons.inj hrest
        rw [List.append_nil] at hfront
        exact hfront hkey hbit
    | cons c more =>
        obtain ⟨rfl, rfl⟩ := List.cons.inj hrest
        exact h start b (more ++ back) (by simp) hkey hbit

/-- A new message has had its turn. -/
theorem Shielded.of_new (h : Shielded key bit flip k expected (a :: l))
    (hnew : bit a = expected (key a)) :
    Shielded key bit flip k (advance key flip expected a) l := by
  intro front b back hsplit hkey hbit
  rw [← bitAfter_cons_new hnew] at hbit
  have hall := h (a :: front) b back (by rw [hsplit]; rfl) hkey hbit
  exact (Bool.and_eq_true_iff.mp hall).2

/-- Behind a duplicate there is nothing new of the sender. -/
theorem Shielded.of_dup (h : Shielded key bit flip k expected (a :: l))
    (hdup : bit a ≠ expected (key a)) : ∀ b ∈ l, key b = k → bit b ≠ expected k := by
  intro b hb hkey hbit
  obtain ⟨front, c, back, rfl, hkey, hbit, hafter⟩ :=
    exists_first_new flip ⟨b, hb, hkey, hbit⟩
  have hturn : bit c = bitAfter key bit flip k (expected k) (a :: front) := by
    rw [(newOf_cons_dup hdup front).2, hafter, hbit]
  have hall := h (a :: front) c back rfl hkey hturn
  exact hdup (of_decide_eq_true (Bool.and_eq_true_iff.mp hall).1)

theorem shielded_of_quiet (h : ∀ b ∈ l, key b = k → bit b ≠ expected k) :
    Shielded key bit flip k expected l := by
  rintro front b back rfl hkey hbit
  have hquiet := newOf_quiet flip fun c hc =>
    h c (List.mem_append_left (b :: back) hc)
  rw [hquiet.2] at hbit
  exact absurd hbit (h b (List.mem_append_right _ List.mem_cons_self) hkey)

end AlternatingBit
