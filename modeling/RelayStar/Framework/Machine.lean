/-!
# Runs of state machines

A machine takes an input in a state and gives an output and the next state;
`run` feeds it a list of inputs. `run_inv` is the induction every invariant
uses, `run_history` that of an invariant relating the state to the inputs and
outputs so far, `run_split` that of one relating it to the inputs read and those
to come; `getElem?_run` names the output of one input of a run by the state
before it; `run_refines` is a simulation of one machine by another.

`firsts` keeps, of a list of inputs, those whose key no earlier input has. A
machine that answers an input of a known key without looking further, and
hands the others to an inner machine, gives on any list, apart from those
answers, the outputs of the inner machine on the `firsts` of the list
(`run_filter_firsts`).

In a log each entry can be allowed by those before it (`Each`).

A relation steps without outputs (`Steps`): a number that every step decreases
bounds the length of its runs (`Steps.length_le`), and none is infinite.
-/

namespace RelayStar

section Run

variable {σ ι ω : Type}

/-- The outputs of a machine on a list of inputs, and its last state. -/
def run (step : σ → ι → ω × σ) : σ → List ι → List ω × σ
  | s, [] => ([], s)
  | s, i :: is =>
    let (o, s') := step s i
    let (os, s'') := run step s' is
    (o :: os, s'')

variable (step : σ → ι → ω × σ)

@[simp] theorem run_nil (s : σ) : run step s [] = ([], s) := rfl

@[simp] theorem run_cons (s : σ) (i : ι) (is : List ι) :
    run step s (i :: is) = ((step s i).1 :: (run step (step s i).2 is).1, (run step (step s i).2 is).2) :=
  rfl

theorem run_append (s : σ) (l l' : List ι) :
    run step s (l ++ l') =
      ((run step s l).1 ++ (run step (run step s l).2 l').1, (run step (run step s l).2 l').2) := by
  induction l generalizing s with
  | nil => rfl
  | cons i l ih => simp only [List.cons_append, run_cons, ih]

theorem run_cons_snd (s : σ) (i : ι) (is : List ι) :
    (run step s (i :: is)).2 = (run step (step s i).2 is).2 := rfl

theorem run_snoc_snd (s : σ) (l : List ι) (i : ι) :
    (run step s (l ++ [i])).2 = (step (run step s l).2 i).2 := by
  rw [run_append, run_cons, run_nil]

@[simp] theorem length_run (s : σ) (l : List ι) : (run step s l).1.length = l.length := by
  induction l generalizing s with
  | nil => rfl
  | cons i l ih => simp only [run_cons, List.length_cons, ih]

theorem run_map {κ : Type} (f : κ → ι) (s : σ) (l : List κ) :
    run step s (l.map f) = run (fun s k => step s (f k)) s l := by
  induction l generalizing s with
  | nil => rfl
  | cons k l ih => simp only [List.map_cons, run_cons, ih]

theorem run_output {ω' : Type} (f : ω → ω') (s : σ) (l : List ι) :
    run (fun s i => (f (step s i).1, (step s i).2)) s l = ((run step s l).1.map f, (run step s l).2) := by
  induction l generalizing s with
  | nil => rfl
  | cons i l ih => simp only [run_cons, ih, List.map_cons]

/-- The output of an input is what the machine gives in the state before it. -/
theorem getElem?_run (s : σ) (pre : List ι) (i : ι) (post : List ι) :
    (run step s (pre ++ i :: post)).1[pre.length]? = some (step (run step s pre).2 i).1 := by
  rw [run_append, List.getElem?_append_right (Nat.le_of_eq (length_run ..)), length_run,
    Nat.sub_self, run_cons, List.getElem?_cons_zero]

variable {step}

/-- Two machines whose steps answer alike and keep a relation answer alike on
every list of inputs. -/
theorem run_refines {τ : Type} {step' : τ → ι → ω × τ} {R : σ → τ → Prop}
    (h : ∀ s t i, R s t → (step s i).1 = (step' t i).1 ∧ R (step s i).2 (step' t i).2) {s : σ} {t : τ}
    (hs : R s t) (l : List ι) :
    (run step s l).1 = (run step' t l).1 ∧ R (run step s l).2 (run step' t l).2 := by
  induction l generalizing s t with
  | nil => exact ⟨rfl, hs⟩
  | cons i l ih =>
    obtain ⟨ho, hR⟩ := h s t i hs
    obtain ⟨hos, hR⟩ := ih hR
    exact ⟨by rw [run_cons, run_cons, ho, hos], hR⟩

/-- What every step on an input from `Q` keeps, a run on inputs from `Q` keeps. -/
theorem run_inv {P : σ → Prop} {Q : ι → Prop} (h : ∀ s i, Q i → P s → P (step s i).2) {s : σ}
    {l : List ι} (hl : ∀ i ∈ l, Q i) (hs : P s) : P (run step s l).2 := by
  induction l generalizing s with
  | nil => exact hs
  | cons i l ih =>
    exact ih (fun j hj => hl j (List.mem_cons_of_mem _ hj)) (h s i (hl i List.mem_cons_self) hs)

/-- What every step keeps of the inputs and outputs so far and the state, a run keeps. -/
theorem run_history {P : List ι → List ω → σ → Prop}
    (h : ∀ is os s i, P is os s → P (is ++ [i]) (os ++ [(step s i).1]) (step s i).2) {s : σ} (hs : P [] [] s)
    (l : List ι) : P l (run step s l).1 (run step s l).2 := by
  suffices H : ∀ is os, P is os s → P (is ++ l) (os ++ (run step s l).1) (run step s l).2 from H [] [] hs
  clear hs
  induction l generalizing s with
  | nil => intro is os hs; simpa using hs
  | cons i l ih =>
    intro is os hs
    simpa using ih _ _ (h is os s i hs)

/-- As `run_inv`, of what was read and what is still to come: what every step
keeps holds between any two parts of the input. -/
theorem run_split {P : List ι → List ι → σ → Prop}
    (h : ∀ pre i post s, P pre (i :: post) s → P (pre ++ [i]) post (step s i).2) {s : σ}
    {pre post : List ι} (h0 : P [] (pre ++ post) s) : P pre post (run step s pre).2 := by
  suffices H : ∀ before, P before (pre ++ post) s → P (before ++ pre) post (run step s pre).2 from H [] h0
  clear h0
  induction pre generalizing s with
  | nil => intro before h0; rw [List.append_nil]; exact h0
  | cons i pre ih =>
    intro before h0
    have := ih _ (h before i (pre ++ post) s h0)
    rwa [List.append_assoc] at this

end Run

section Each

variable {α : Type} {P : List α → α → Prop}

/-- Each entry of a log is allowed by those before it. -/
inductive Each (P : List α → α → Prop) : List α → Prop
  | nil : Each P []
  | snoc {l : List α} {a : α} (h : Each P l) (ha : P l a) : Each P (l ++ [a])

theorem Each.of_split {l : List α} (h : Each P l) {pre : List α} {a : α} {post : List α} (hl : l = pre ++ a :: post) :
    P pre a := by
  induction h generalizing post with
  | nil => simp at hl
  | snoc h ha ih =>
    rcases List.eq_nil_or_concat post with rfl | ⟨post, b, rfl⟩
    · obtain ⟨rfl, hb⟩ := List.append_inj' hl rfl
      cases hb
      exact ha
    · rw [List.concat_eq_append, ← List.cons_append, ← List.append_assoc] at hl
      exact ih (List.append_inj' hl rfl).1

end Each

section Firsts

variable {ι κ : Type} [DecidableEq κ] (key : ι → κ)

/-- The inputs whose key is not in `seen` and which no earlier input has. -/
def firsts : List κ → List ι → List ι
  | _, [] => []
  | seen, i :: is => if key i ∈ seen then firsts seen is else i :: firsts (key i :: seen) is

variable {key}

theorem mem_of_mem_firsts {seen : List κ} {l : List ι} {i : ι} (h : i ∈ firsts key seen l) :
    i ∈ l ∧ key i ∉ seen := by
  induction l generalizing seen with
  | nil => cases h
  | cons j l ih =>
    rw [firsts] at h
    split at h
    · exact ⟨List.mem_cons_of_mem _ (ih h).1, (ih h).2⟩
    · rename_i hj
      rcases List.mem_cons.mp h with rfl | h
      · exact ⟨List.mem_cons_self, hj⟩
      · exact ⟨List.mem_cons_of_mem _ (ih h).1, fun hs => (ih h).2 (List.mem_cons_of_mem _ hs)⟩

/-- Inputs of known keys are not kept. -/
theorem firsts_eq_nil {seen : List κ} {l : List ι} (hl : ∀ i ∈ l, key i ∈ seen) : firsts key seen l = [] :=
  List.eq_nil_iff_forall_not_mem.mpr fun i hi => (mem_of_mem_firsts hi).2 (hl i (mem_of_mem_firsts hi).1)

/-- Inputs of distinct new keys are all kept. -/
theorem firsts_eq_self {seen : List κ} {l : List ι} (hnd : (l.map key).Nodup) (hl : ∀ i ∈ l, key i ∉ seen) :
    firsts key seen l = l := by
  induction l generalizing seen with
  | nil => rfl
  | cons i l ih =>
    obtain ⟨hi, hnd⟩ := List.nodup_cons.mp hnd
    rw [firsts, if_neg (hl i List.mem_cons_self)]
    refine congrArg _ (ih hnd fun j hj hmem => ?_)
    rcases List.mem_cons.mp hmem with e | hmem
    · exact hi (List.mem_map.mpr ⟨j, hj, e⟩)
    · exact hl j (List.mem_cons_of_mem _ hj) hmem

/-- The only input of a key is the first one. -/
theorem find?_of_unique {k : κ} {i : ι} {l : List ι} (hi : i ∈ l) (hk : key i = k) (hl : ∀ j ∈ l, key j = k → j = i) :
    l.find? (key · = k) = some i := by
  cases h : l.find? (key · = k) with
  | none => exact absurd (decide_eq_true hk) (List.find?_eq_none.mp h i hi)
  | some j =>
    have hj := List.find?_some h
    rw [hl j (List.mem_of_find?_eq_some h) (of_decide_eq_true hj)]

/-- With one new key, at most one input is kept. -/
theorem firsts_one {seen : List κ} {k : κ} (hk : k ∉ seen) {l : List ι}
    (hl : ∀ i ∈ l, key i ∈ seen ∨ key i = k) : firsts key seen l = (l.find? (key · = k)).toList := by
  induction l generalizing seen with
  | nil => rfl
  | cons i l ih =>
    have hl' := fun j hj => hl j (List.mem_cons_of_mem _ hj)
    rcases hl i List.mem_cons_self with hi | hi
    · rw [firsts, if_pos hi, ih hk hl', List.find?_cons_of_neg]
      exact fun e => hk (of_decide_eq_true e ▸ hi)
    · rw [firsts, if_neg (hi ▸ hk), List.find?_cons_of_pos (by simpa using hi), Option.toList_some]
      have hseen : ∀ j ∈ l, key j ∈ key i :: seen := fun j hj => by
        rcases hl' j hj with h | h
        · exact List.mem_cons_of_mem _ h
        · rw [h, hi]; exact List.mem_cons_self
      exact congrArg _ (firsts_eq_nil hseen)

/-- With two new keys, the first input of each is kept, in some order. -/
theorem firsts_two {k k' : κ} (hne : k ≠ k') {l : List ι} (hl : ∀ i ∈ l, key i = k ∨ key i = k') :
    firsts key [] l = (l.find? (key · = k)).toList ++ (l.find? (key · = k')).toList ∨
      firsts key [] l = (l.find? (key · = k')).toList ++ (l.find? (key · = k)).toList := by
  cases l with
  | nil => exact Or.inl rfl
  | cons i l =>
    have hl' := fun j hj => hl j (List.mem_cons_of_mem _ hj)
    rw [firsts, if_neg List.not_mem_nil]
    rcases hl i List.mem_cons_self with hi | hi
    · left
      rw [firsts_one (k := k') (by simpa [hi] using hne.symm) (by simpa [hi] using hl'),
        List.find?_cons_of_pos (by simpa using hi), List.find?_cons_of_neg (by simpa [hi] using hne)]
      rfl
    · right
      rw [firsts_one (k := k) (by simpa [hi] using hne) (by simpa [hi, or_comm] using hl'),
        List.find?_cons_of_pos (by simpa using hi), List.find?_cons_of_neg (by simpa [hi] using hne.symm)]
      rfl

variable {σ τ ω ω' : Type}

/-- The machine `step` answers an input of a known key by itself (`known`), and
passes the others on to the machine `inner`; `R` relates the keys it knows and
the two states, on inputs from `Q`. -/
structure Guards (key : ι → κ) (step : σ → ι → ω × σ) (inner : τ → ι → ω' × τ) (out : ω' → ω)
    (known : ω → Bool) (R : List κ → σ → τ → Prop) (Q : ι → Prop) : Prop where
  out_new : ∀ o, known (out o) = false
  known : ∀ seen s t i, Q i → R seen s t → key i ∈ seen →
    known (step s i).1 = true ∧ R seen (step s i).2 t
  new : ∀ seen s t i, Q i → R seen s t → key i ∉ seen →
    (step s i).1 = out (inner t i).1 ∧ R (key i :: seen) (step s i).2 (inner t i).2

variable {step : σ → ι → ω × σ} {inner : τ → ι → ω' × τ} {out : ω' → ω} {known : ω → Bool}
  {R : List κ → σ → τ → Prop} {Q : ι → Prop}

/-- Apart from the answers to known keys, a guard gives the outputs of the
machine it guards on the first input of each key. -/
theorem run_filter_firsts (h : Guards key step inner out known R Q) {seen : List κ} {s : σ} {t : τ}
    {l : List ι} (hl : ∀ i ∈ l, Q i) (hR : R seen s t) :
    (run step s l).1.filter (fun o => !known o) = (run inner t (firsts key seen l)).1.map out ∧
      ∃ seen', R seen' (run step s l).2 (run inner t (firsts key seen l)).2 := by
  induction l generalizing seen s t with
  | nil => exact ⟨rfl, seen, hR⟩
  | cons i l ih =>
    have hi := hl i List.mem_cons_self
    have hl' := fun j hj => hl j (List.mem_cons_of_mem _ hj)
    rw [firsts]
    split
    · rename_i hs
      obtain ⟨hk, hR'⟩ := h.known seen s t i hi hR hs
      rw [run_cons, List.filter_cons_of_neg (by rw [hk]; decide)]
      exact ih hl' hR'
    · rename_i hs
      obtain ⟨ho, hR'⟩ := h.new seen s t i hi hR hs
      rw [run_cons, run_cons, List.filter_cons_of_pos (by rw [ho, h.out_new]; rfl), List.map_cons, ho]
      obtain ⟨h1, h2⟩ := ih hl' hR'
      exact ⟨by rw [h1], h2⟩

end Firsts

section Steps

variable {σ : Type} {step : σ → σ → Prop}

/-- `k` steps of a relation. -/
inductive Steps (step : σ → σ → Prop) : Nat → σ → σ → Prop
  | refl (s : σ) : Steps step 0 s s
  | tail {k : Nat} {s t u : σ} (h : Steps step k s t) (h' : step t u) : Steps step (k + 1) s u

/-- A number that every step decreases bounds the steps. -/
theorem Steps.length_le {f : σ → Nat} (hf : ∀ s t, step s t → f t < f s) {k : Nat} {s t : σ}
    (h : Steps step k s t) : k + f t ≤ f s := by
  induction h with
  | refl s => exact Nat.le_of_eq (Nat.zero_add _)
  | tail _ h' ih => have := hf _ _ h'; omega

/-- An infinite run goes any number of steps. -/
theorem steps_of_run {run : Nat → σ} (h : ∀ k, step (run k) (run (k + 1))) (k : Nat) :
    Steps step k (run 0) (run k) := by
  induction k with
  | zero => exact .refl _
  | succ k ih => exact ih.tail (h k)

theorem not_infinite {f : σ → Nat} (hf : ∀ s t, step s t → f t < f s) (run : Nat → σ) :
    ¬ ∀ k, step (run k) (run (k + 1)) := fun h => by
  have := (steps_of_run h (f (run 0) + 1)).length_le hf
  omega

end Steps

end RelayStar
