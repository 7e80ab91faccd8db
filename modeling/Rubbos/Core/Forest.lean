/-
Forests, and the order in which a depth-first search visits their nodes.

A forest is empty, or a node with the forest below it and the trees to the right of it. `preorder` lists the nodes with their
depth, every node before those below it and those before the trees to its right. `level n` are the nodes of depth n.

- `level_succ`: in a forest that branches by a function, every level is made of the children of the level before.
- `mem_preorder`, `nodup_preorder`: the nodes of the preorder, each once, from those of the levels.
- `branches_grow`: the forest of a function whose children are smaller by some measure.
-/
import Mathlib.Tactic

namespace Rubbos.Core

inductive Forest (α : Type) where
  | nil
  | cons (a : α) (below rest : Forest α)

namespace Forest

variable {α : Type}

def roots : Forest α → List α
  | nil => []
  | cons a _ rest => a :: rest.roots

/-- the nodes with their depth, the roots at depth d -/
def preorder (d : ℕ) : Forest α → List (α × ℕ)
  | nil => []
  | cons a below rest => (a, d) :: below.preorder (d + 1) ++ rest.preorder d

/-- the nodes of a depth, from left to right -/
def level : Forest α → ℕ → List α
  | nil, _ => []
  | cons a _ rest, 0 => a :: rest.level 0
  | cons _ below rest, n + 1 => below.level n ++ rest.level (n + 1)

/-- every node stands in the relation to the forest below it -/
def All (P : α → Forest α → Prop) : Forest α → Prop
  | nil => True
  | cons a below rest => P a below ∧ below.All P ∧ rest.All P

/-- below every node are its children, in order -/
def Branches (ch : α → List α) (F : Forest α) : Prop := F.All fun a below => below.roots = ch a

/-- what is to be shown of the nodes follows for the nodes of the forest -/
theorem All.imp {P Q : α → Forest α → Prop} {F : Forest α} {e : ℕ}
    (h : ∀ a d G, (a, d) ∈ F.preorder e → P a G → Q a G) (hF : F.All P) : F.All Q := by
  induction F generalizing e with
  | nil => trivial
  | cons a below rest ihb ihr =>
    obtain ⟨ha, hb, hr⟩ := hF
    refine ⟨h a e below (by simp [preorder]) ha, ihb (e := e + 1) ?_ hb, ihr (e := e) ?_ hr⟩
    · intro b d G hmem
      exact h b d G (by simp [preorder, hmem])
    · intro b d G hmem
      exact h b d G (by simp [preorder, hmem])

theorem level_zero (F : Forest α) : F.level 0 = F.roots := by
  induction F with
  | nil => rfl
  | cons a below rest _ ih => rw [level, roots, ih]

theorem level_succ {ch : α → List α} {F : Forest α} (h : F.Branches ch) (n : ℕ) :
    F.level (n + 1) = (F.level n).flatMap ch := by
  induction F generalizing n with
  | nil => rfl
  | cons a below rest ihb ihr =>
    obtain ⟨ha, hb, hr⟩ := h
    cases n with
    | zero => rw [level, level, List.flatMap_cons, ihr hr, level_zero below, ha]
    | succ n => rw [level, level, List.flatMap_append, ihb hb, ihr hr]

theorem mem_preorder {F : Forest α} {a : α} {d e : ℕ} : (a, d) ∈ F.preorder e ↔ ∃ n, d = e + n ∧ a ∈ F.level n := by
  induction F generalizing e with
  | nil => simp [preorder, level]
  | cons b below rest ihb ihr =>
    simp only [preorder, List.mem_append, List.mem_cons, Prod.mk.injEq, ihb, ihr]
    constructor
    · rintro ((⟨rfl, rfl⟩ | ⟨n, rfl, hn⟩) | ⟨n, rfl, hn⟩)
      · exact ⟨0, rfl, List.mem_cons_self⟩
      · exact ⟨n + 1, by omega, List.mem_append_left _ hn⟩
      · refine ⟨n, rfl, ?_⟩
        cases n with
        | zero => exact List.mem_cons_of_mem _ hn
        | succ n => exact List.mem_append_right _ hn
    · rintro ⟨n, rfl, hn⟩
      cases n with
      | zero =>
        rcases List.mem_cons.1 hn with rfl | hn
        · exact .inl (.inl ⟨rfl, rfl⟩)
        · exact .inr ⟨0, rfl, hn⟩
      | succ n =>
        rcases List.mem_append.1 hn with hn | hn
        · exact .inl (.inr ⟨n, by omega, hn⟩)
        · exact .inr ⟨n + 1, rfl, hn⟩

/-- a forest whose levels have no node twice, and no node in common, has no node twice -/
theorem nodup_preorder {κ : Type} (key : α → κ) {F : Forest α} {e : ℕ} (hlevel : ∀ n, ((F.level n).map key).Nodup)
    (hdepth : ∀ k m n, k ∈ (F.level m).map key → k ∈ (F.level n).map key → m = n) :
    ((F.preorder e).map fun x => key x.1).Nodup := by
  induction F generalizing e with
  | nil => simp [preorder]
  | cons a below rest ihb ihr =>
    have hsub : ∀ n, (below.level n).map key ⊆ ((cons a below rest).level (n + 1)).map key := fun n =>
      List.map_subset key (List.subset_append_left _ _)
    have hsub' : ∀ n, (rest.level n).map key ⊆ ((cons a below rest).level n).map key := by
      intro n
      cases n with
      | zero => exact List.map_subset key (List.subset_cons_self _ _)
      | succ n => exact List.map_subset key (List.subset_append_right _ _)
    have hb : ((below.preorder (e + 1)).map fun x => key x.1).Nodup := by
      apply ihb
      · intro n
        have hn := hlevel (n + 1)
        rw [level, List.map_append] at hn
        exact (List.nodup_append'.1 hn).1
      · intro k m n hm hn
        have := hdepth k (m + 1) (n + 1) (hsub m hm) (hsub n hn)
        omega
    have hr : ((rest.preorder e).map fun x => key x.1).Nodup := by
      apply ihr
      · intro n
        cases n with
        | zero =>
          have hn := hlevel 0
          rw [level, List.map_cons] at hn
          exact (List.nodup_cons.1 hn).2
        | succ n =>
          have hn := hlevel (n + 1)
          rw [level, List.map_append] at hn
          exact (List.nodup_append'.1 hn).2.1
      · intro k m n hm hn
        exact hdepth k m n (hsub' m hm) (hsub' n hn)
    -- a node below a, and one to the right of it, seen in their levels
    have hmem : ∀ {G : Forest α} {d : ℕ} {k : κ}, k ∈ (G.preorder d).map (fun x => key x.1) →
        ∃ n, k ∈ (G.level n).map key := by
      intro G d k hk
      obtain ⟨⟨b, i⟩, hx, rfl⟩ := List.mem_map.1 hk
      obtain ⟨n, -, hn⟩ := mem_preorder.1 hx
      exact ⟨n, List.mem_map_of_mem hn⟩
    have hroot : key a ∈ ((cons a below rest).level 0).map key := by simp [level]
    rw [preorder, List.map_append, List.map_cons, List.nodup_append']
    refine ⟨List.nodup_cons.2 ⟨?_, hb⟩, hr, ?_⟩
    · intro hk
      obtain ⟨n, hn⟩ := hmem hk
      have := hdepth _ _ _ hroot (hsub n hn)
      omega
    · intro k hk hk'
      obtain ⟨n', hn'⟩ := hmem hk'
      rcases List.mem_cons.1 hk with rfl | hk
      · have := hdepth _ _ _ hroot (hsub' n' hn')
        subst this
        have hn := hlevel 0
        rw [level, List.map_cons] at hn
        exact (List.nodup_cons.1 hn).1 hn'
      · obtain ⟨n, hn⟩ := hmem hk
        have := hdepth _ _ _ (hsub n hn) (hsub' n' hn')
        subst this
        have hn2 := hlevel (n + 1)
        rw [level, List.map_append] at hn2
        exact (List.nodup_append'.1 hn2).2.2 hn hn'

/-! ## The forest of a function -/

def growList (g : α → Forest α) : List α → Forest α
  | [] => nil
  | a :: as => cons a (g a) (growList g as)

/-- the forest with these roots and so many levels in which every node has its children below it -/
def grow (ch : α → List α) : ℕ → List α → Forest α
  | 0, _ => nil
  | n + 1, as => growList (fun a => grow ch n (ch a)) as

theorem roots_growList (g : α → Forest α) (as : List α) : (growList g as).roots = as := by
  induction as with
  | nil => rfl
  | cons a as ih => rw [growList, roots, ih]

theorem all_growList {P : α → Forest α → Prop} {g : α → Forest α} {as : List α}
    (h : ∀ a ∈ as, P a (g a) ∧ (g a).All P) : (growList g as).All P := by
  induction as with
  | nil => trivial
  | cons a as ih =>
    obtain ⟨h1, h2⟩ := h a List.mem_cons_self
    exact ⟨h1, h2, ih fun b hb => h b (List.mem_cons_of_mem _ hb)⟩

/-- when children are smaller by some measure, enough levels hold the whole forest -/
theorem branches_grow {ch : α → List α} (f : α → ℕ) (hch : ∀ a, ∀ b ∈ ch a, f b < f a) (n : ℕ) (as : List α)
    (has : ∀ a ∈ as, f a < n) : (grow ch n as).roots = as ∧ (grow ch n as).Branches ch := by
  induction n generalizing as with
  | zero =>
    have : as = [] := List.eq_nil_iff_forall_not_mem.2 fun a ha => Nat.not_lt_zero _ (has a ha)
    subst this
    exact ⟨rfl, trivial⟩
  | succ n ih =>
    refine ⟨roots_growList _ _, all_growList fun a ha => ih (ch a) fun b hb => ?_⟩
    have h1 := hch a b hb
    have h2 := has a ha
    omega

end Forest

end Rubbos.Core
