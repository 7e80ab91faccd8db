/-
Pre- and postconditions for programs with a state that may throw.

`Ensures m s Q E`: from state s the program m either returns, with Q of its value and the state after, or throws an
exception of which E holds. The rules follow the program text: `ensures_bind` for sequencing, `Ensures.mono` for
weakening. The last sections are about loops that may throw: those that carry a value along, and those that collect one
result for each element of a list.
-/
import Mathlib.Tactic

namespace Rubbos.Core

variable {σ ε α β : Type}

abbrev Prog (σ ε α : Type) := StateT σ (Except ε) α

def Ensures (m : Prog σ ε α) (s : σ) (Q : α → σ → Prop) (E : ε → Prop) : Prop :=
  match m.run s with
  | .ok (a, s') => Q a s'
  | .error e => E e

variable {s : σ} {Q Q' : α → σ → Prop} {E E' : ε → Prop} {m : Prog σ ε α}

theorem ensures_pure {a : α} (h : Q a s) : Ensures (pure a) s Q E := h

theorem ensures_throw {e : ε} (h : E e) : Ensures (throw e : Prog σ ε α) s Q E := h

theorem Ensures.mono (h : Ensures m s Q E) (hQ : ∀ a s', Q a s' → Q' a s') (hE : ∀ e, E e → E' e) : Ensures m s Q' E' := by
  unfold Ensures at h ⊢
  cases hm : m.run s with
  | error e =>
    rw [hm] at h
    exact hE e h
  | ok r =>
    rw [hm] at h
    exact hQ _ _ h

theorem ensures_bind {f : α → Prog σ ε β} {R : β → σ → Prop} (h : Ensures m s Q E)
    (hf : ∀ a s', Q a s' → Ensures (f a) s' R E) : Ensures (m >>= f) s R E := by
  unfold Ensures at h ⊢
  rw [StateT.run_bind]
  cases hm : m.run s with
  | error e =>
    rw [hm] at h
    exact h
  | ok r =>
    rw [hm] at h
    exact hf r.1 r.2 h

theorem ensures_get {Q : σ → σ → Prop} (h : Q s s) : Ensures (get : Prog σ ε σ) s Q E := h

theorem ensures_set {s' : σ} {Q : PUnit → σ → Prop} (h : Q ⟨⟩ s') : Ensures (set s' : Prog σ ε PUnit) s Q E := h

theorem ensures_modify {f : σ → σ} {Q : PUnit → σ → Prop} (h : Q ⟨⟩ (f s)) :
    Ensures (modify f : Prog σ ε PUnit) s Q E := h

/-- a computation without state -/
theorem ensures_lift {x : Except ε α} (hok : ∀ a, x = .ok a → Q a s) (herr : ∀ e, x = .error e → E e) :
    Ensures (StateT.lift x : Prog σ ε α) s Q E := by
  unfold Ensures StateT.lift StateT.run
  cases x with
  | error e => exact herr e rfl
  | ok a => exact hok a rfl

/-! ## Loops -/

theorem bind_eq_ok {x : Except ε α} {f : α → Except ε β} {b : β} :
    x >>= f = .ok b ↔ ∃ a, x = .ok a ∧ f a = .ok b := by
  cases x with
  | error e => simp [bind, Except.bind]
  | ok a => simp [bind, Except.bind]

theorem bind_eq_error {x : Except ε α} {f : α → Except ε β} {e : ε} :
    (x >>= f) = .error e ↔ x = .error e ∨ ∃ a, x = .ok a ∧ f a = .error e := by
  cases x with
  | error e' => simp [bind, Except.bind]
  | ok a => simp [bind, Except.bind]

/-- what every step of a loop keeps, the loop keeps -/
theorem foldlM_induct {f : β → α → Except ε β} {P : β → Prop} {l : List α} {b b' : β}
    (hstep : ∀ a ∈ l, ∀ b b', P b → f b a = .ok b' → P b') (hb : P b) (h : l.foldlM f b = .ok b') : P b' := by
  induction l generalizing b with
  | nil =>
    cases h
    exact hb
  | cons a l ih =>
    rw [List.foldlM_cons, bind_eq_ok] at h
    obtain ⟨c, hc, h⟩ := h
    exact ih (fun a' ha' => hstep a' (List.mem_cons_of_mem a ha')) (hstep a List.mem_cons_self b c hb hc) h

/-- a loop whose steps all go through -/
theorem foldlM_ok_of_forall {f : β → α → Except ε β} {P : β → Prop} {l : List α} {b : β}
    (hstep : ∀ a ∈ l, ∀ b, P b → ∃ b', f b a = .ok b' ∧ P b') (hb : P b) : ∃ b', l.foldlM f b = .ok b' ∧ P b' := by
  induction l generalizing b with
  | nil => exact ⟨b, rfl, hb⟩
  | cons a l ih =>
    obtain ⟨c, hc, hPc⟩ := hstep a List.mem_cons_self b hb
    obtain ⟨b', hb', hPb'⟩ := ih (fun a' ha' => hstep a' (List.mem_cons_of_mem a ha')) hPc
    exact ⟨b', by rw [List.foldlM_cons, bind_eq_ok]; exact ⟨c, hc, hb'⟩, hPb'⟩

/-- every element of a loop that went through has had its step -/
theorem exists_step_of_foldlM {f : β → α → Except ε β} {P : β → Prop} {l : List α} {b b' : β}
    (hstep : ∀ a ∈ l, ∀ b b', P b → f b a = .ok b' → P b') (hb : P b) (h : l.foldlM f b = .ok b') {a : α} (ha : a ∈ l) :
    ∃ c c', P c ∧ f c a = .ok c' := by
  induction l generalizing b with
  | nil => cases ha
  | cons x l ih =>
    rw [List.foldlM_cons, bind_eq_ok] at h
    obtain ⟨c, hc, h⟩ := h
    rcases List.mem_cons.1 ha with rfl | ha
    · exact ⟨b, c, hb, hc⟩
    · exact ih (fun a' ha' => hstep a' (List.mem_cons_of_mem x ha')) (hstep x List.mem_cons_self b c hb hc) h ha

/-- a loop may leave out the elements that do nothing -/
theorem foldlM_filter {f : β → α → Except ε β} {q : α → Bool} {l : List α} (h : ∀ a ∈ l, q a = false → ∀ b, f b a = .ok b)
    (b : β) : (l.filter q).foldlM f b = l.foldlM f b := by
  induction l generalizing b with
  | nil => rfl
  | cons a l ih =>
    have hrest := ih fun a' ha' => h a' (List.mem_cons_of_mem a ha')
    cases hq : q a with
    | true =>
      rw [List.filter_cons_of_pos hq, List.foldlM_cons, List.foldlM_cons]
      congr 1
      funext c
      exact hrest c
    | false =>
      rw [List.filter_cons_of_neg (by simp [hq]), List.foldlM_cons, h a List.mem_cons_self hq b]
      exact hrest b

/-- a loop whose steps add to a number, in the states that it goes through -/
theorem foldlM_sum {M : Type} [AddMonoid M] {f : β → α → Except ε β} {P : β → Prop} {n : β → M} {w : α → M}
    (hstep : ∀ a b b', P b → f b a = .ok b' → P b' ∧ n b' = n b + w a) {l : List α} {b b' : β} (hb : P b)
    (h : l.foldlM f b = .ok b') : n b' = n b + (l.map w).sum := by
  induction l generalizing b with
  | nil =>
    cases h
    simp
  | cons a l ih =>
    rw [List.foldlM_cons, bind_eq_ok] at h
    obtain ⟨c, hc, h⟩ := h
    obtain ⟨hPc, hn⟩ := hstep a b c hb hc
    rw [ih hPc h, hn, List.map_cons, List.sum_cons, add_assoc]

/-! ## Collecting results -/

/-- an error of a traversal is one of its elements' -/
theorem exists_error_of_mapM {f : α → Except ε β} {l : List α} {e : ε} (h : l.mapM f = .error e) :
    ∃ a ∈ l, f a = .error e := by
  induction l with
  | nil => cases h
  | cons a l ih =>
    simp only [List.mapM_cons, bind_eq_error, pure, Except.pure, reduceCtorEq, and_false, exists_false, or_false] at h
    rcases h with h | ⟨b, -, h⟩
    · exact ⟨a, List.mem_cons_self, h⟩
    · obtain ⟨x, hx, hfx⟩ := ih h
      exact ⟨x, List.mem_cons_of_mem _ hx, hfx⟩

/-- a loop that only appends what each element gives is a traversal -/
theorem foldlM_map_eq {γ : Type} (g : α → Except ε γ) (add : β → γ → β) (l : List α) (b : β) :
    l.foldlM (fun b a => (g a).map (add b)) b = (l.mapM g).map fun rs => rs.foldl add b := by
  induction l generalizing b with
  | nil => rfl
  | cons a l ih =>
    simp only [List.foldlM_cons, List.mapM_cons]
    cases g a with
    | error e => rfl
    | ok r =>
      simp only [Except.map, bind, Except.bind] at ih ⊢
      rw [ih]
      cases l.mapM g with
      | error e => rfl
      | ok rs => rfl

theorem forall₂_of_mapM_some {f : α → Option β} {l : List α} {bs : List β} (h : l.mapM f = some bs) :
    List.Forall₂ (fun a b => f a = some b) l bs := by
  induction l generalizing bs with
  | nil =>
    simp only [List.mapM_nil, pure, Option.some.injEq] at h
    exact h ▸ .nil
  | cons a l ih =>
    simp only [List.mapM_cons, bind, Option.bind_eq_some_iff, pure, Option.some.injEq] at h
    obtain ⟨b, hb, bs', hbs', rfl⟩ := h
    exact .cons hb (ih hbs')

theorem mapM_some_of_forall₂ {f : α → Option β} {l : List α} {bs : List β}
    (h : List.Forall₂ (fun a b => f a = some b) l bs) : l.mapM f = some bs := by
  induction h with
  | nil => rfl
  | cons hb _ ih => simp [hb, ih]

/-- a counting loop over a list, with results of which only a view is known -/
theorem mapM_range_view {γ δ : Type} {f : ℕ → Option β} (cs : List γ) (view : β → δ) (g : γ → δ)
    (h : ∀ i (hi : i < cs.length), ∃ b, f i = some b ∧ view b = g cs[i]) :
    ∃ bs, (List.range cs.length).mapM f = some bs ∧ bs.map view = cs.map g := by
  induction cs using List.reverseRecOn with
  | nil => exact ⟨[], rfl, rfl⟩
  | append_singleton cs c ih =>
    obtain ⟨bs, hbs, hmap⟩ := ih fun i hi => by
      have := h i (by simp only [List.length_append, List.length_singleton]; omega)
      rwa [List.getElem_append_left hi] at this
    obtain ⟨b, hb, hview⟩ := h cs.length (by simp)
    rw [List.getElem_concat_length rfl] at hview
    refine ⟨bs ++ [b], ?_, ?_⟩
    · rw [List.length_append, List.length_singleton, List.range_succ, List.mapM_append, hbs]
      simp [hb]
    · simp [hmap, hview]

theorem forall₂_of_mapM_ok {f : α → Except ε β} {l : List α} {bs : List β} (h : l.mapM f = .ok bs) :
    List.Forall₂ (fun a b => f a = .ok b) l bs := by
  induction l generalizing bs with
  | nil =>
    cases h
    exact .nil
  | cons a l ih =>
    rw [List.mapM_cons] at h
    cases hb : f a with
    | error e =>
      rw [hb] at h
      cases h
    | ok b =>
      cases hbs : l.mapM f with
      | error e =>
        rw [hb, hbs] at h
        cases h
      | ok bs' =>
        rw [hb, hbs] at h
        cases h
        exact .cons hb (ih hbs)

/-- every result comes from an element -/
theorem exists_of_mem_right {R : α → β → Prop} {l : List α} {bs : List β} (h : List.Forall₂ R l bs) {b : β}
    (hb : b ∈ bs) : ∃ a ∈ l, R a b := by
  induction h with
  | nil => cases hb
  | @cons a b' l bs hab _ ih =>
    rcases List.mem_cons.1 hb with rfl | hb
    · exact ⟨a, List.mem_cons_self, hab⟩
    · obtain ⟨a', ha', hr⟩ := ih hb
      exact ⟨a', List.mem_cons_of_mem _ ha', hr⟩

/-- a counting loop over a list -/
theorem mapM_range_ok {γ : Type} {f : ℕ → Except ε β} {cs : List γ} {g : γ → β}
    (h : ∀ i (hi : i < cs.length), f i = .ok (g cs[i])) : (List.range cs.length).mapM f = .ok (cs.map g) := by
  induction cs using List.reverseRecOn with
  | nil => rfl
  | append_singleton cs c ih =>
    have hrest := ih fun i hi => by
      have := h i (by simp only [List.length_append, List.length_singleton]; omega)
      rwa [List.getElem_append_left hi] at this
    have hlast := h cs.length (by simp)
    rw [List.getElem_concat_length rfl] at hlast
    rw [List.length_append, List.length_singleton, List.range_succ, List.mapM_append, hrest, List.map_append]
    simp [hlast, bind, Except.bind, pure, Except.pure]

/-- a loop over the images of a list -/
theorem mapM_map_ok {γ : Type} {f : β → Except ε γ} {l : List α} {t : α → β} {g : α → γ}
    (h : ∀ a ∈ l, f (t a) = .ok (g a)) : (l.map t).mapM f = .ok (l.map g) := by
  induction l with
  | nil => rfl
  | cons a l ih =>
    rw [List.map_cons, List.mapM_cons, h a List.mem_cons_self, ih fun x hx => h x (List.mem_cons_of_mem _ hx)]
    rfl

end Rubbos.Core
