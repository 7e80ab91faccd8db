/-
Rely and guarantee for requests that run at once.

A contract says what holds of the database between two statements, what a statement may do to it, what a request relies on at
each of its pieces, and what the things that are printed say. A program keeps the contract if each of its statements, made alone
in a database that meets the contract, gives what the contract says, and if what is relied on and said survives the statements
of others.

- `Keeps.sum`: two programs that keep a contract on their own keep it together.
- `Keeps.run`: over every interleaving the contract holds, and the database has changed only as statements may change it.
-/
import Rubbos.Core.Interleaving

namespace Rubbos.Core.Interleaving

structure Contract (σ π ω : Type) where
  /-- what holds of the database -/
  Inv : σ → Prop
  /-- what a statement may do to it -/
  Guar : σ → σ → Prop
  /-- what a request relies on at a piece -/
  Relies : σ → π → Prop
  /-- what is said by something that is printed -/
  Shows : σ → ω → Prop

variable {σ ι ι' π π' ω ω' : Type}

/-- a state in which the contract holds -/
structure Contract.Holds (K : Contract σ π ω) (s : St σ π ω) : Prop where
  inv : K.Inv s.db
  relies : ∀ p ∈ s.running, K.Relies s.db p
  shows : ∀ x ∈ s.printed, K.Shows s.db x

/-- what a statement gives is what the contract says -/
structure Contract.Gives (K : Contract σ π ω) (db : σ) (o : Outcome σ π ω) : Prop where
  inv : K.Inv o.db
  guar : K.Guar db o.db
  relies : ∀ p ∈ o.next, K.Relies o.db p
  shows : ∀ x ∈ o.printed, K.Shows o.db x

/-- every statement gives what the contract says, and what is relied on or said is stable -/
structure Keeps (K : Contract σ π ω) (P : Program σ ι π ω) : Prop where
  start : ∀ db i, K.Inv db → (∀ p ∈ (P.start i).1, K.Relies db p) ∧ ∀ x ∈ (P.start i).2, K.Shows db x
  exec : ∀ db p ok, K.Inv db → K.Relies db p → K.Gives db (P.exec db p ok)
  relies_stable : ∀ {db db' p}, K.Guar db db' → K.Relies db p → K.Relies db' p
  shows_stable : ∀ {db db' x}, K.Guar db db' → K.Shows db x → K.Shows db' x

/-- the contract of two programs over one database -/
def Contract.sum (K : Contract σ π ω) (Relies : σ → π' → Prop) (Shows : σ → ω' → Prop) : Contract σ (π ⊕ π') (ω ⊕ ω') where
  Inv := K.Inv
  Guar := K.Guar
  Relies db := Sum.elim (K.Relies db) (Relies db)
  Shows db := Sum.elim (K.Shows db) (Shows db)

variable {K : Contract σ π ω} {P : Program σ ι π ω}

/-- a statement that gives what its program's contract says, among two programs -/
theorem Contract.Gives.map {π₁ ω₁ : Type} {K' : Contract σ π₁ ω₁} {db : σ} {o : Outcome σ π ω} (h : K.Gives db o) {f : π → π₁}
    {g : ω → ω₁} (hInv : K'.Inv = K.Inv) (hGuar : K'.Guar = K.Guar) (hf : ∀ p, K.Relies o.db p → K'.Relies o.db (f p))
    (hg : ∀ x, K.Shows o.db x → K'.Shows o.db (g x)) : K'.Gives db (o.map f g) := by
  refine ⟨hInv ▸ h.inv, hGuar ▸ h.guar, fun p hp => ?_, fun x hx => ?_⟩
  · obtain ⟨q, hq, rfl⟩ := Option.map_eq_some_iff.1 hp
    exact hf q (h.relies q hq)
  · obtain ⟨y, hy, rfl⟩ := List.mem_map.1 hx
    exact hg y (h.shows y hy)

/-- **Composition.** -/
theorem Keeps.sum (hP : Keeps K P) {Relies : σ → π' → Prop} {Shows : σ → ω' → Prop} {Q : Program σ ι' π' ω'}
    (hQ : Keeps ⟨K.Inv, K.Guar, Relies, Shows⟩ Q) : Keeps (K.sum Relies Shows) (P.sum Q) where
  start db i hdb := by
    cases i with
    | inl i =>
      obtain ⟨hrelies, hshows⟩ := hP.start db i hdb
      refine ⟨fun p hp => ?_, fun x hx => ?_⟩
      · obtain ⟨q, hq, rfl⟩ := Option.map_eq_some_iff.1 hp
        exact hrelies q hq
      · obtain ⟨y, hy, rfl⟩ := List.mem_map.1 hx
        exact hshows y hy
    | inr i =>
      obtain ⟨hrelies, hshows⟩ := hQ.start db i hdb
      refine ⟨fun p hp => ?_, fun x hx => ?_⟩
      · obtain ⟨q, hq, rfl⟩ := Option.map_eq_some_iff.1 hp
        exact hrelies q hq
      · obtain ⟨y, hy, rfl⟩ := List.mem_map.1 hx
        exact hshows y hy
  exec db p ok hdb hp := by
    cases p with
    | inl p => exact (hP.exec db p ok hdb hp).map rfl rfl (fun _ => id) (fun _ => id)
    | inr p => exact (hQ.exec db p ok hdb hp).map rfl rfl (fun _ => id) (fun _ => id)
  relies_stable {db db' p} h hp := by
    cases p with
    | inl p => exact hP.relies_stable h hp
    | inr p => exact hQ.relies_stable h hp
  shows_stable {db db' x} h hx := by
    cases x with
    | inl x => exact hP.shows_stable h hx
    | inr x => exact hQ.shows_stable h hx

theorem Contract.Holds.arrive {s : St σ π ω} (hs : K.Holds s) (hP : Keeps K P) (i : ι) :
    K.Holds (Interleaving.arrive s (P.start i)) := by
  obtain ⟨hrelies, hshows⟩ := hP.start s.db i hs.inv
  refine ⟨hs.inv, fun p hp => ?_, fun x hx => ?_⟩
  · obtain hp | hp := List.mem_append.1 hp
    · exact hs.relies p hp
    · exact hrelies p (Option.mem_toList.1 hp)
  · obtain hx | hx := List.mem_append.1 hx
    · exact hs.shows x hx
    · exact hshows x hx

theorem Contract.Holds.advance {s : St σ π ω} (hs : K.Holds s) (hP : Keeps K P) {as bs : List π} {p : π} {ok : Bool}
    (hsplit : s.running = as ++ p :: bs) : K.Holds (Interleaving.advance s as bs (P.exec s.db p ok)) := by
  have hgives := hP.exec s.db p ok hs.inv (hs.relies p (by simp [hsplit]))
  have hothers : ∀ q, q ∈ as ∨ q ∈ bs → K.Relies (P.exec s.db p ok).db q := by
    intro q hq
    refine hP.relies_stable hgives.guar (hs.relies q ?_)
    rw [hsplit, List.mem_append, List.mem_cons]
    exact hq.imp_right .inr
  refine ⟨hgives.inv, fun q hq => ?_, fun x hx => ?_⟩
  · simp only [Interleaving.advance, List.mem_append, Option.mem_toList] at hq
    obtain (hq | hq) | hq := hq
    · exact hothers q (.inl hq)
    · exact hgives.relies q hq
    · exact hothers q (.inr hq)
  · obtain hx | hx := List.mem_append.1 hx
    · exact hP.shows_stable hgives.guar (hs.shows x hx)
    · exact hgives.shows x hx

/-- **Rely-guarantee rule.** -/
theorem Keeps.run (hP : Keeps K P) (hrefl : ∀ db, K.Guar db db) (htrans : ∀ {a b c}, K.Guar a b → K.Guar b c → K.Guar a c)
    {s : St σ π ω} (hs : K.Holds s) (es : List (Event ι)) :
    K.Holds (after (step P) s es) ∧ K.Guar s.db (after (step P) s es).db := by
  refine interleaving_invariant (P := P) (fun t => K.Holds t ∧ K.Guar s.db t.db) (fun _ _ => True) ?_ ?_ s es ⟨hs, hrefl _⟩
    (.of_forall (fun _ _ => trivial) _)
  · rintro t i ⟨ht, hguar⟩ -
    exact ⟨ht.arrive hP i, hguar⟩
  · rintro t as p bs ok ⟨ht, hguar⟩ hsplit -
    have hgives := hP.exec t.db p ok ht.inv (ht.relies p (by simp [hsplit]))
    exact ⟨ht.advance hP hsplit, htrans hguar hgives.guar⟩

end Rubbos.Core.Interleaving
