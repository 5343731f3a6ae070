import Mathlib.Data.List.Basic

/-! Finite runs of a deterministic step function. A run is the list of its inputs;
`Each` speaks about every input in the state that receives it and `Always` about every
state reached. The rules below are the only inductions over runs. -/
namespace RunRules

variable {σ ι ω : Type*} (step : σ → ι → σ)

/-- The state after a list of inputs. -/
def exec : σ → List ι → σ
  | s, [] => s
  | s, i :: is => exec (step s i) is

/-- Every input satisfies `P` together with the state that receives it. -/
def Each (P : σ → ι → Prop) : σ → List ι → Prop
  | _, [] => True
  | s, i :: is => P s i ∧ Each P (step s i) is

/-- Every state reached satisfies `Q`, the first and the last included. -/
def Always (Q : σ → Prop) : σ → List ι → Prop
  | s, [] => Q s
  | s, i :: is => Q s ∧ Always Q (step s i) is

/-- The observations of all steps, in order. -/
def observed (obs : σ → ι → List ω) : σ → List ι → List ω
  | _, [] => []
  | s, i :: is => obs s i ++ observed obs (step s i) is

@[simp] theorem exec_nil (s : σ) : exec step s [] = s := rfl

@[simp] theorem exec_cons (s : σ) (i : ι) (is : List ι) :
    exec step s (i :: is) = exec step (step s i) is := rfl

theorem exec_append (s : σ) (is js : List ι) :
    exec step s (is ++ js) = exec step (exec step s is) js := by
  induction is generalizing s with
  | nil => rfl
  | cons i is ih => exact ih (step s i)

instance Each.decidable (P : σ → ι → Prop) [∀ s i, Decidable (P s i)] :
    ∀ s is, Decidable (Each step P s is)
  | _, [] => .isTrue trivial
  | s, i :: is =>
      have := Each.decidable P (step s i) is
      inferInstanceAs (Decidable (P s i ∧ Each step P (step s i) is))

variable {step} {P R : σ → ι → Prop} {Q Inv : σ → Prop}

theorem Each.imp (h : ∀ s i, P s i → R s i) {s : σ} {is : List ι} (hp : Each step P s is) :
    Each step R s is := by
  induction is generalizing s with
  | nil => trivial
  | cons i is ih => exact ⟨h s i hp.1, ih hp.2⟩

theorem Each.of_forall (h : ∀ s i, P s i) {s : σ} {is : List ι} : Each step P s is := by
  induction is generalizing s with
  | nil => trivial
  | cons i is ih => exact ⟨h s i, ih⟩

theorem Each.of_mem {s : σ} {is : List ι} (h : ∀ s, ∀ i ∈ is, P s i) : Each step P s is := by
  induction is generalizing s with
  | nil => trivial
  | cons i is ih =>
      exact ⟨h s i List.mem_cons_self, ih fun t j hj => h t j (List.mem_cons_of_mem i hj)⟩

theorem Each.and {s : σ} {is : List ι} (hp : Each step P s is) (hr : Each step R s is) :
    Each step (fun s i => P s i ∧ R s i) s is := by
  induction is generalizing s with
  | nil => trivial
  | cons i is ih => exact ⟨⟨hp.1, hr.1⟩, ih hp.2 hr.2⟩

theorem each_append {s : σ} {is js : List ι} :
    Each step P s (is ++ js) ↔ Each step P s is ∧ Each step P (exec step s is) js := by
  induction is generalizing s with
  | nil => simp [Each]
  | cons i is ih => simp only [List.cons_append, Each, exec_cons, ih, and_assoc]

/-- `Each` in terms of the input at any split of the run. -/
theorem each_iff_split {s : σ} {is : List ι} :
    Each step P s is ↔ ∀ pre i post, is = pre ++ i :: post → P (exec step s pre) i := by
  constructor
  · rintro h pre i post rfl
    exact (each_append.mp h).2.1
  · intro h
    induction is generalizing s with
    | nil => trivial
    | cons i is ih =>
        refine ⟨h [] i is rfl, ih fun pre j post e => ?_⟩
        exact h (i :: pre) j post (by rw [e, List.cons_append])

/-- `Always` in terms of the prefixes of the run. -/
theorem always_iff_split {s : σ} {is : List ι} :
    Always step Q s is ↔ ∀ pre post, is = pre ++ post → Q (exec step s pre) := by
  induction is generalizing s with
  | nil =>
      constructor
      · intro h pre post e
        obtain ⟨rfl, rfl⟩ := List.append_eq_nil_iff.mp e.symm
        exact h
      · intro h
        exact h [] [] rfl
  | cons i is ih =>
      constructor
      · rintro ⟨h, ht⟩ pre post e
        cases pre with
        | nil => exact h
        | cons j pre =>
            obtain ⟨rfl, tail⟩ := List.cons.inj e
            exact ih.mp ht pre post tail
      · intro h
        refine ⟨h [] _ rfl, ih.mpr fun pre post e => ?_⟩
        exact h (i :: pre) post (by rw [e, List.cons_append])

theorem Always.head {s : σ} {is : List ι} (h : Always step Q s is) : Q s := by
  cases is with
  | nil => exact h
  | cons i is => exact h.1

/-- Run rule: a step lemma carries the invariant to the end of the run. -/
theorem exec_inv (hstep : ∀ s i, Inv s → P s i → Inv (step s i))
    {s : σ} {is : List ι} (h : Inv s) (hp : Each step P s is) : Inv (exec step s is) := by
  induction is generalizing s with
  | nil => exact h
  | cons i is ih => exact ih (hstep s i h hp.1) hp.2

/-- Run rule: what follows from the invariant holds in every state reached. -/
theorem always_of_inv (hQ : ∀ s, Inv s → Q s)
    (hstep : ∀ s i, Inv s → P s i → Inv (step s i))
    {s : σ} {is : List ι} (h : Inv s) (hp : Each step P s is) : Always step Q s is := by
  induction is generalizing s with
  | nil => exact hQ s h
  | cons i is ih => exact ⟨hQ s h, ih (hstep s i h hp.1) hp.2⟩

/-- Run rule: what follows from the invariant holds of every input in the state it meets. -/
theorem each_of_inv {T : σ → ι → Prop} (hT : ∀ s i, Inv s → P s i → T s i)
    (hstep : ∀ s i, Inv s → P s i → Inv (step s i))
    {s : σ} {is : List ι} (h : Inv s) (hp : Each step P s is) : Each step T s is := by
  induction is generalizing s with
  | nil => trivial
  | cons i is ih => exact ⟨hT s i h hp.1, ih (hstep s i h hp.1) hp.2⟩

/-- Exactness rule: inputs that meet `P` keep the invariant, an input that breaks `P`
leads to a state without `Q`; then `P` is the condition for `Q` along the run. The
inputs themselves are drawn from `R`. -/
theorem always_iff_each (hQ : ∀ s, Inv s → Q s)
    (hstep : ∀ s i, Inv s → R s i → P s i → Inv (step s i))
    (hbreak : ∀ s i, Inv s → R s i → ¬ P s i → ¬ Q (step s i))
    {s : σ} {is : List ι} (h : Inv s) (hr : Each step R s is) :
    Always step Q s is ↔ Each step P s is := by
  induction is generalizing s with
  | nil => exact ⟨fun _ => trivial, fun _ => hQ s h⟩
  | cons i is ih =>
      by_cases hp : P s i
      · have ih := ih (hstep s i h hr.1 hp) hr.2
        exact ⟨fun ha => ⟨hp, ih.mp ha.2⟩, fun he => ⟨hQ s h, ih.mpr he.2⟩⟩
      · constructor
        · intro ha
          exact (hbreak s i h hr.1 hp ha.2.head).elim
        · intro he
          exact (hp he.1).elim

/-- Exactness rule for a property `T` of steps instead of states. -/
theorem each_iff_each {T : σ → ι → Prop}
    (hstep : ∀ s i, Inv s → R s i → P s i → T s i ∧ Inv (step s i))
    (hbreak : ∀ s i, Inv s → R s i → ¬ P s i → ¬ T s i)
    {s : σ} {is : List ι} (h : Inv s) (hr : Each step R s is) :
    Each step T s is ↔ Each step P s is := by
  induction is generalizing s with
  | nil => exact Iff.rfl
  | cons i is ih =>
      by_cases hp : P s i
      · have hi := hstep s i h hr.1 hp
        exact and_congr ⟨fun _ => hp, fun _ => hi.1⟩ (ih hi.2 hr.2)
      · exact ⟨fun ht => (hbreak s i h hr.1 hp ht.1).elim, fun he => (hp he.1).elim⟩

/-- Run rule with a budget: the invariant may speak of the number of inputs taken. -/
theorem each_of_budget {T : σ → ι → Prop} {Inv : ℕ → σ → Prop} {N : ℕ}
    (hT : ∀ n s i, n < N → Inv n s → P s i → T s i)
    (hstep : ∀ n s i, n < N → Inv n s → P s i → Inv (n + 1) (step s i))
    {n : ℕ} {s : σ} {is : List ι} (h : Inv n s) (hn : n + is.length ≤ N) (hp : Each step P s is) :
    Each step T s is ∧ Inv (n + is.length) (exec step s is) := by
  induction is generalizing n s with
  | nil => exact ⟨trivial, h⟩
  | cons i is ih =>
      rw [List.length_cons, Nat.add_comm is.length, ← Nat.add_assoc] at hn ⊢
      have hlt : n < N := by omega
      obtain ⟨ht, hend⟩ := ih (hstep n s i hlt h hp.1) hn hp.2
      exact ⟨⟨hT n s i hlt h hp.1, ht⟩, hend⟩

theorem exec_of_budget {Inv : ℕ → σ → Prop} {N : ℕ}
    (hstep : ∀ n s i, n < N → Inv n s → P s i → Inv (n + 1) (step s i))
    {n : ℕ} {s : σ} {is : List ι} (h : Inv n s) (hn : n + is.length ≤ N) (hp : Each step P s is) :
    Inv (n + is.length) (exec step s is) :=
  (each_of_budget (T := fun _ _ => True) (fun _ _ _ _ _ _ => trivial) hstep h hn hp).2

/-- A measure that no input raises and that `mine` lowers is used up by enough inputs of that
kind, whatever comes between them. -/
theorem exec_countdown {μ : σ → ℕ} {mine : ι → Bool} (hstep : ∀ s i, Inv s → Inv (step s i))
    (hidle : ∀ s i, Inv s → μ (step s i) ≤ μ s)
    (hmine : ∀ s i, Inv s → mine i = true → μ (step s i) ≤ μ s - 1) {s : σ} (h : Inv s)
    (is : List ι) : μ (exec step s is) ≤ μ s - is.countP mine := by
  induction is generalizing s with
  | nil => exact Nat.le_refl _
  | cons i is ih =>
      have hrest := ih (hstep s i h)
      rw [exec_cons]
      cases hi : mine i with
      | false =>
          rw [List.countP_cons_of_neg (by rw [hi]; exact Bool.false_ne_true)]
          exact Nat.le_trans hrest (Nat.sub_le_sub_right (hidle s i h) _)
      | true =>
          rw [List.countP_cons_of_pos hi]
          have hlower := hmine s i h hi
          omega

/-- Two machines in step, with the same observations. -/
theorem observed_congr {τ : Type*} {step' : τ → ι → τ} {obs : σ → ι → List ω}
    {obs' : τ → ι → List ω} {T : σ → τ → Prop}
    (hstep : ∀ s t i, T s t → obs s i = obs' t i ∧ T (step s i) (step' t i))
    {s : σ} {t : τ} (h : T s t) (is : List ι) :
    observed step obs s is = observed step' obs' t is := by
  induction is generalizing s t with
  | nil => rfl
  | cons i is ih =>
      obtain ⟨hobs, hnext⟩ := hstep s t i h
      rw [observed, observed, hobs, ih hnext]

/-! ### Simulation

A machine is simulated by another through a view of its states: every step is matched by a
list of inputs of the other machine, empty where the view does not change. -/

section Simulation

variable {τ κ : Type*}

structure Simulates (step : σ → ι → σ) (P : σ → ι → Prop) (Inv : σ → Prop) (step' : τ → κ → τ)
    (P' : τ → κ → Prop) (view : σ → τ) (matched : σ → ι → List κ) : Prop where
  inv : ∀ s i, Inv s → P s i → Inv (step s i)
  commutes : ∀ s i, Inv s → P s i → view (step s i) = exec step' (view s) (matched s i)
  allowed : ∀ s i, Inv s → P s i → Each step' P' (view s) (matched s i)

variable {step' : τ → κ → τ} {P' : τ → κ → Prop} {view : σ → τ} {matched : σ → ι → List κ}

/-- A run is matched by the run of all the matching inputs. -/
theorem Simulates.run (hsim : Simulates step P Inv step' P' view matched) {s : σ} {is : List ι}
    (h : Inv s) (hp : Each step P s is) :
    view (exec step s is) = exec step' (view s) (observed step matched s is) ∧
      Each step' P' (view s) (observed step matched s is) := by
  induction is generalizing s with
  | nil => exact ⟨rfl, trivial⟩
  | cons i is ih =>
      obtain ⟨hview, heach⟩ := ih (hsim.inv s i h hp.1) hp.2
      rw [hsim.commutes s i h hp.1] at hview heach
      refine ⟨?_, each_append.mpr ⟨hsim.allowed s i h hp.1, heach⟩⟩
      rw [exec_cons, hview, observed, exec_append]

/-- An invariant of the simulating machine is one of the views. -/
theorem Simulates.inv_view (hsim : Simulates step P Inv step' P' view matched) {J : τ → Prop}
    (hJ : ∀ t k, J t → P' t k → J (step' t k)) {s : σ} {i : ι} (h : Inv s) (hp : P s i)
    (hj : J (view s)) : J (view (step s i)) := by
  rw [hsim.commutes s i h hp]
  exact exec_inv hJ hj (hsim.allowed s i h hp)

end Simulation

end RunRules
