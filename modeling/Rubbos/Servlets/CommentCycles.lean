/-
Whether the recursions over comments end (`Comment.java` over the tables of `StoreComment.java`).

StoreComment takes any number for the parent of a comment, also one that no comment has yet. When the parents lead from a
comment back to itself, every level of the join has it again, and the search for lower levels never stops. That can only
happen through an INSERT that closes the circle: one whose parent leads, along the parents that are there, to the id that the
new comment gets.

Premise: the database answers a query with the rows of its join, or the query throws.

- `recursion_ends`: as long as no INSERT closes a circle, every display of every reachable table ends.
- `own_parent_never_ends`: a comment that is its own parent.
-/
import Rubbos.Servlets.CommentTree

namespace Rubbos.Servlets.CommentFetch

open Rubbos.Core Interleaving Tables
open StoreComment (Point servlet exec_effect Grounded ParentExists Referenced)

/-! ## The display ends -/

section Display

variable {ρ κ : Type} [DecidableEq κ] {cols : Columns ρ κ} {map : List ρ} {filter display : ℤ}

omit [DecidableEq κ] in
theorem lowerLoop_isSome {below : κ → Bool → Option (List (Shown ρ))} {level : ℕ} (al : List ρ)
    (hbelow : ∀ c ∈ al, ∀ sep, (below (cols.id c) sep).isSome) (sep : Bool) :
    (lowerLoop cols filter below level al sep).isSome := by
  induction al generalizing sep with
  | nil => rfl
  | cons c al ih =>
    obtain ⟨rest, hrest⟩ := Option.isSome_iff_exists.1
      (ih (fun d hd => hbelow d (List.mem_cons_of_mem _ hd)) (sep || decide (filter ≤ cols.rating c)))
    obtain ⟨low, hlow⟩ := Option.isSome_iff_exists.1
      (hbelow c List.mem_cons_self (sep || decide (filter ≤ cols.rating c)))
    by_cases hc : cols.hasChilds c <;> simp [lowerLoop, hrest, hlow, hc]

theorem displayLowerLevelComments_isSome (f : ρ → ℕ) (hf : ∀ c, ∀ b ∈ branch cols map c, f b < f c) (n : ℕ) (cid : κ)
    (h : ∀ c ∈ children cols map cid, f c < n) (level : ℕ) (sep : Bool) :
    (displayLowerLevelComments cols map filter (n + 1) cid level sep).isSome := by
  induction n generalizing cid level sep with
  | zero =>
    have hnil : children cols map cid = [] := List.eq_nil_iff_forall_not_mem.2 fun c hc => Nat.not_lt_zero _ (h c hc)
    rw [displayLowerLevelComments, hnil]
    rfl
  | succ n ih =>
    apply lowerLoop_isSome
    intro c hc sep
    apply ih
    intro b hb
    have h1 := hf c b hb
    have h2 := h c hc
    omega

theorem displayComments_isSome (filter display : ℤ) (f : ρ → ℕ) (hf : ∀ c, ∀ b ∈ branch cols map c, f b < f c) (n : ℕ) (cid : κ)
    (h : ∀ c ∈ children cols map cid, f c < n + 1) : (displayComments cols map filter display (n + 1) cid).isSome := by
  unfold displayComments
  generalize children cols map cid = al at h
  induction al with
  | nil => rfl
  | cons c al ih =>
    obtain ⟨rest, hrest⟩ := Option.isSome_iff_exists.1 (ih fun d hd => h d (List.mem_cons_of_mem _ hd))
    have hlower : (displayLowerLevelComments cols map filter (n + 1) (cols.id c) 1 (decide (filter ≤ cols.rating c))).isSome := by
      apply displayLowerLevelComments_isSome f hf
      intro b hb
      have h1 := hf c b hb
      have h2 := h c List.mem_cons_self
      omega
    obtain ⟨low, hlow⟩ := Option.isSome_iff_exists.1 hlower
    by_cases hc : 0 < display ∧ cols.hasChilds c <;> simp [topLoop, hrest, hlow, hc]

end Display

/-! ## The search for lower levels ends -/

section Search

variable (display : ℤ) {ans : ℕ → Option (List Row)}

/-- what is put in front of the rest does not go on for ever when the rest does not -/
theorem map_ne_endless {x : Except Failure (List Row)} {f : List Row → List Row} (h : x ≠ .error .endless) :
    x.map f ≠ .error .endless := by
  cases x with
  | error e => exact h
  | ok rest => simp [Except.map]

theorem fetchLowerLevels_ends {N : ℕ} (hN : ∀ n rs, N ≤ n → ans n = some rs → rs = []) (fuel level : ℕ)
    (hfuel : N ≤ level + fuel) : fetchLowerLevels display ans (fuel + 1) level ≠ .error .endless := by
  induction fuel generalizing level with
  | zero =>
    rw [fetchLowerLevels]
    cases hlevel : ans level with
    | none => simp
    | some follow =>
      rw [hN level follow (by omega) hlevel]
      simp
  | succ fuel ih =>
    rw [fetchLowerLevels]
    cases ans level with
    | none => simp
    | some follow =>
      simp only
      split
      · exact map_ne_endless (ih (level + 1) (by omega))
      · simp

theorem fetchComments_ends {N : ℕ} (hN : ∀ n rs, N ≤ n → ans n = some rs → rs = []) (fuel : ℕ) (hfuel : N ≤ fuel) :
    fetchComments display ans (fuel + 1) ≠ .error .endless := by
  rw [fetchComments]
  cases ans 0 with
  | none => simp
  | some rs =>
    simp only
    split
    · exact map_ne_endless (fetchLowerLevels_ends display hN fuel 1 (by omega))
    · simp

variable {display}

/-- what is fetched comes from the answers -/
theorem of_mem_fetchLowerLevels {fuel level : ℕ} {rest : List Row} (h : fetchLowerLevels display ans fuel level = .ok rest)
    {r : Row} (hr : r ∈ rest) : ∃ n rs, ans n = some rs ∧ ∃ r₀ ∈ rs, r = lower display r₀ := by
  induction fuel generalizing level rest with
  | zero => cases h
  | succ fuel ih =>
    rw [fetchLowerLevels] at h
    cases hlevel : ans level with
    | none =>
      rw [hlevel] at h
      cases h
    | some follow =>
      rw [hlevel] at h
      have hhere : r ∈ follow.map (lower display) → ∃ n rs, ans n = some rs ∧ ∃ r₀ ∈ rs, r = lower display r₀ := by
        intro hr
        obtain ⟨r₀, hr₀, rfl⟩ := List.mem_map.1 hr
        exact ⟨level, follow, hlevel, r₀, hr₀, rfl⟩
      by_cases hdeep : follow.any (0 < ·.childs)
      · simp only [hdeep, if_true] at h
        cases hrest : fetchLowerLevels display ans fuel (level + 1) with
        | error e =>
          rw [hrest] at h
          cases h
        | ok rest' =>
          rw [hrest] at h
          cases h
          rcases List.mem_append.1 hr with hr | hr
          · exact hhere hr
          · exact ih hrest hr
      · simp only [hdeep] at h
        cases h
        exact hhere hr

theorem of_mem_fetchComments {fuel : ℕ} {map : List Row} (h : fetchComments display ans fuel = .ok map) {r : Row}
    (hr : r ∈ map) : ∃ n rs, ans n = some rs ∧ ∃ r₀ ∈ rs, r = r₀ ∨ r = lower display r₀ := by
  rw [fetchComments] at h
  cases hfirst : ans 0 with
  | none =>
    rw [hfirst] at h
    cases h
  | some first =>
    rw [hfirst] at h
    by_cases hdeep : first.any (0 < ·.childs)
    · simp only [hdeep, if_true] at h
      cases hrest : fetchLowerLevels display ans fuel 1 with
      | error e =>
        rw [hrest] at h
        cases h
      | ok rest =>
        rw [hrest] at h
        cases h
        rcases List.mem_append.1 hr with hr | hr
        · exact ⟨0, first, hfirst, r, hr, .inl rfl⟩
        · obtain ⟨n, rs, hrs, r₀, hr₀, hlow⟩ := of_mem_fetchLowerLevels hrest hr
          exact ⟨n, rs, hrs, r₀, hr₀, .inr hlow⟩
    · simp only [hdeep] at h
      cases h
      exact ⟨0, map, hfirst, r, hr, .inl rfl⟩

end Search

/-! ## Tables without circles -/

/-- the comment j is the parent of the comment k -/
def ParentOf (t : Table Tables.Comment) (k j : ℕ) : Prop := ∃ c, t.get? k = some c ∧ c.parent = j

/-- the parents lead from k to j -/
def LeadsTo (t : Table Tables.Comment) : ℕ → ℕ → Prop := Relation.ReflTransGen (ParentOf t)

/-- there are numbers that go up from every parent to its replies -/
def Ranked (t : Table Tables.Comment) : Prop := ∃ rank : ℕ → ℕ, ∀ k j, ParentOf t k j → rank j < rank k

theorem parentOf_insert {t : Table Tables.Comment} {r : Tables.Comment} {k j : ℕ} :
    ParentOf (t.insert r) k j ↔ (k = t.next ∧ r.parent = j) ∨ ParentOf t k j := by
  unfold ParentOf
  rw [Table.get?_insert]
  by_cases hk : k = t.next
  · subst hk
    simp [Table.get?_next]
  · simp [hk]

theorem parentOf_update {t : Table Tables.Comment} {i : ℕ} {f : Tables.Comment → Tables.Comment}
    (hf : ∀ c, (f c).parent = c.parent) {k j : ℕ} :
    ParentOf (t.update i f) k j ↔ ParentOf t k j := by
  unfold ParentOf
  rw [Table.get?_update]
  split
  · cases t.get? k with
    | none => simp
    | some c => simp [hf]
  · rfl

/-- an INSERT that closes no circle: the ranks of the comments that lead to the new one are moved up above its parent -/
theorem ranked_insert {t : Table Tables.Comment} (h : Ranked t) {r : Tables.Comment} (hr : ¬ LeadsTo t r.parent t.next) :
    Ranked (t.insert r) := by
  classical
  obtain ⟨rank, hrank⟩ := h
  refine ⟨fun k => if LeadsTo t k t.next then rank k + (rank r.parent + 1) else rank k, ?_⟩
  intro k j hkj
  rcases parentOf_insert.1 hkj with ⟨rfl, rfl⟩ | hkj
  · have hself : LeadsTo t t.next t.next := .refl
    simp only [hr, hself, if_true, if_false]
    omega
  · have hlt := hrank k j hkj
    by_cases hj : LeadsTo t j t.next
    · have hk : LeadsTo t k t.next := .head hkj hj
      simp only [hj, hk, if_true]
      omega
    · simp only [hj, if_false]
      split_ifs
      · omega
      · exact hlt

/-! ## The display of a table without circles -/

section Ends

variable {db : Db} {q : Query}

theorem get?_of_mem_joined {n : ℕ} {e : ℕ × Tables.Comment} (h : e ∈ joined db q n) : (db.get q.table).get? e.1 = some e.2 := by
  cases n with
  | zero => exact Table.mem_rows.1 (List.mem_of_mem_filter h)
  | succ n =>
    obtain ⟨_, -, he⟩ := List.mem_flatMap.1 h
    exact Table.mem_rows.1 (List.mem_of_mem_filter he)

/-- every level of the join goes up by one rank at least -/
theorem le_rank_of_mem_joined {rank : ℕ → ℕ} (hrank : ∀ k j, ParentOf (db.get q.table) k j → rank j < rank k) {n : ℕ}
    {e : ℕ × Tables.Comment} (h : e ∈ joined db q n) : n ≤ rank e.1 := by
  induction n generalizing e with
  | zero => exact Nat.zero_le _
  | succ n ih =>
    obtain ⟨e₀, he₀, he⟩ := List.mem_flatMap.1 h
    obtain ⟨-, hparent⟩ := List.mem_filter.1 he
    have hle := ih he₀
    have hlt := hrank e.1 e₀.1 ⟨e.2, get?_of_mem_joined h, of_decide_eq_true hparent⟩
    omega

theorem of_mem_answer {n : ℕ} {r : Row} (h : r ∈ answer db q n) : ∃ e ∈ joined db q n, r.id = e.1 ∧ r.parent = e.2.parent := by
  obtain ⟨e, he, hrow⟩ := List.mem_filterMap.1 h
  obtain ⟨u, -, rfl⟩ := Option.map_eq_some_iff.1 hrow
  exact ⟨e, List.mem_of_mem_filter he, rfl, rfl⟩

/-- the ranks of a table are bounded -/
theorem exists_bound (t : Table Tables.Comment) (rank : ℕ → ℕ) : ∃ B, ∀ k c, t.get? k = some c → rank k < B := by
  refine ⟨(t.rows.map fun e => rank e.1).sum + 1, ?_⟩
  intro k c hc
  have hmem : rank k ∈ t.rows.map fun e => rank e.1 := List.mem_map.2 ⟨(k, c), Table.mem_rows.2 hc, rfl⟩
  have := List.single_le_sum (fun _ _ => Nat.zero_le _) _ hmem
  omega

/-- **Without circles the recursions end**, with any filter and display, and in whatever order the database answers. -/
theorem fetchAndDisplay_ends (h : Ranked (db.get q.table)) {ans : ℕ → Option (List Row)}
    (hans : ∀ n rs, ans n = some rs → rs.Perm (answer db q n)) (filter display : ℤ) :
    ∃ N, ∀ fuel, N ≤ fuel → fetchAndDisplay filter display ans q.parent fuel ≠ .error .endless := by
  obtain ⟨rank, hrank⟩ := h
  obtain ⟨B, hB⟩ := exists_bound (db.get q.table) rank
  have hnil : ∀ n rs, B ≤ n → ans n = some rs → rs = [] := by
    intro n rs hn hrs
    refine List.eq_nil_iff_forall_not_mem.2 fun r hr => ?_
    obtain ⟨e, he, -⟩ := of_mem_answer ((hans n rs hrs).mem_iff.1 hr)
    have h1 := le_rank_of_mem_joined hrank he
    have h2 := hB _ _ (get?_of_mem_joined he)
    omega
  refine ⟨B + 1, fun fuel hfuel => ?_⟩
  obtain ⟨n, rfl⟩ := Nat.exists_eq_succ_of_ne_zero (by omega : fuel ≠ 0)
  have hfetch := fetchComments_ends display hnil n (by omega)
  cases hmap : fetchComments display ans (n + 1) with
  | error e =>
    rw [hmap] at hfetch
    rw [fetchAndDisplay, hmap]
    exact fun h => hfetch (congrArg Except.error (Except.error.inj h))
  | ok map =>
    -- in the map too the ranks go up from a comment to its replies
    have hbranch : ∀ c, ∀ b ∈ branch columns map c, B - rank b.id < B - rank c.id := by
      intro c b hb
      obtain ⟨hbmap, hparent⟩ := List.mem_filter.1 hb
      obtain ⟨m, rs, hrs, r₀, hr₀, hrow⟩ := of_mem_fetchComments hmap hbmap
      obtain ⟨e, he, hid, hpar⟩ := of_mem_answer ((hans m rs hrs).mem_iff.1 hr₀)
      have hcols : b.id = r₀.id ∧ b.parent = r₀.parent := by
        rcases hrow with rfl | rfl
        · exact ⟨rfl, rfl⟩
        · unfold lower
          split <;> exact ⟨rfl, rfl⟩
      have hget := get?_of_mem_joined he
      have hparent' : e.2.parent = c.id := by
        rw [← hpar, ← hcols.2]
        exact of_decide_eq_true hparent
      have hlt := hrank e.1 c.id ⟨e.2, hget, hparent'⟩
      have hbound := hB _ _ hget
      rw [hcols.1, hid]
      omega
    obtain ⟨shown, hshown⟩ := Option.isSome_iff_exists.1
      (displayComments_isSome filter display (fun r : Row => B - rank r.id) hbranch n q.parent
        (fun c _ => by omega))
    rw [fetchAndDisplay, hmap]
    simp only [Except.bind, Nat.succ_eq_add_one, hshown]
    simp

end Ends

/-! ## Tables that StoreComment builds -/

section Built

variable {table : CommentTable}

/-- an INSERT closes no circle: the parents do not lead from the parent of the new comment to the id that it gets -/
def NoCircle (table : CommentTable) (s : Interleaving.St Db Point Output) : Interleaving.Event StoreComment.Request → Prop
  | .statement n true => ∀ p ∈ s.running[n]?, ∀ e ∈ StoreComment.insertOf p, e.1 = .known table →
      ¬ LeadsTo (s.db.get table) e.2 (s.db.get table).next
  | _ => True

theorem ranked_statement {s : Interleaving.St Db Point Output} (h : Ranked (s.db.get table)) {as bs : List Point} {p : Point}
    {ok : Bool} (hs : s.running = as ++ p :: bs) (hC : NoCircle table s (.statement as.length ok)) :
    Ranked ((servlet.exec s.db p ok).db.get table) := by
  cases exec_effect table s.db p ok with
  | quiet rows => rwa [rows]
  | lost _ _ _ rows => rwa [rows]
  | updated _ _ _ rows =>
    obtain ⟨rank, hrank⟩ := h
    rw [rows]
    exact ⟨rank, fun k j hkj => hrank k j ((parentOf_update (f := StoreComment.addReply) fun _ => rfl).1 hkj)⟩
  | inserted hp hok htable rows next =>
    rename_i q userId
    subst hp hok
    rw [rows]
    exact ranked_insert h (hC (.insert q userId) (by simp [hs]) (q.comment_table, q.parent) rfl htable)

theorem ranked_run {db : Db} (h : Ranked (db.get table)) {es : List (Interleaving.Event StoreComment.Request)}
    (hC : Along (step servlet) (NoCircle table) (idle db) es) :
    Ranked ((after (step servlet) (idle db) es).db.get table) := by
  refine interleaving_invariant (P := servlet) (fun s => Ranked (s.db.get table)) (NoCircle table) ?_ ?_ _ es h hC
  · intro s i hs _
    exact hs
  · intro s as p bs ok hR hs hC
    exact ranked_statement hR hs hC

/-- the parents lead from a comment of the table to comments of the table and to 0, not to a new one -/
theorem not_leadsTo_next {t : Table Tables.Comment} (ht : Referenced t) {j : ℕ} (hj : j = 0 ∨ (t.get? j).isSome) :
    ¬ LeadsTo t j t.next := by
  have hend : ∀ {i}, LeadsTo t j i → i = 0 ∨ (t.get? i).isSome := by
    intro i hi
    induction hi with
    | refl => exact hj
    | tail _ hstep _ =>
      obtain ⟨c, hc, rfl⟩ := hstep
      exact ht _ c hc
  intro hlead
  have hpos := t.next_pos
  rcases hend hlead with h0 | hsome
  · omega
  · rw [Table.get?_next] at hsome
    cases hsome

/-- requests whose parents are 0 or comments close no circle -/
theorem noCircle_run {s : Interleaving.St Db Point Output} (hs : Grounded table s) {es : List (Interleaving.Event StoreComment.Request)}
    (h : Along (step servlet) (ParentExists table) s es) : Along (step servlet) (NoCircle table) s es := by
  induction es generalizing s with
  | nil => trivial
  | cons e es ih =>
    refine ⟨?_, ih (StoreComment.slack_step hs e h.1).1 h.2⟩
    cases e with
    | request i => trivial
    | statement n ok =>
      cases ok with
      | false => trivial
      | true => exact fun p hp e he htable => not_leadsTo_next hs.rows (h.1 p hp e he htable)

theorem ranked_empty : Ranked .empty := ⟨id, fun _ _ ⟨_, hc, _⟩ => nomatch hc⟩

/-- **The recursions end.** Take a table of comments that any interleaving of StoreComment requests has built, failed ones
among them, in which no INSERT closed a circle. Then every query of ViewStory and ViewComment on the table comes to an end,
with any filter and display, in whatever order the database answers, and also when one of its queries throws. -/
theorem recursion_ends (db : Db) (table : CommentTable) (hempty : db.get table = .empty)
    (es : List (Interleaving.Event StoreComment.Request)) (hcircle : Along (step servlet) (NoCircle table) (idle db) es) (q : Query)
    (hq : q.table = table) (ans : ℕ → Option (List Row))
    (hans : ∀ n rs, ans n = some rs → rs.Perm (answer (after (step servlet) (idle db) es).db q n)) (filter display : ℤ) :
    ∃ N, ∀ fuel, N ≤ fuel → fetchAndDisplay filter display ans q.parent fuel ≠ .error .endless := by
  subst hq
  refine fetchAndDisplay_ends (ranked_run ?_ hcircle) hans filter display
  rw [hempty]
  exact ranked_empty

theorem reply_display_ends :
    ∃ N, ∀ fuel, N ≤ fuel → fetchAndDisplay 0 2 (joins 61 (after (step servlet) (idle StoreComment.noComments)
      commentAndReply).db (viewStoryQuery .comments 5)) 0 fuel ≠ .error .endless :=
  recursion_ends StoreComment.noComments .comments rfl commentAndReply
    (noCircle_run (StoreComment.grounded_idle (by exact StoreComment.referenced_empty)) (by decide)) (viewStoryQuery .comments 5) rfl _
    (fun _ _ => perm_of_joins) 0 2

/-- the first comment, posted as a reply to comment 1 -/
def ownParent : List (Interleaving.Event StoreComment.Request) := .request (StoreComment.post 1) :: StoreComment.succeeds 3

/-- it is its own parent, and has been counted -/
def ownParentRow : Tables.Comment := ⟨0, 5, 1, 1, 0, [], [], []⟩

/-- ViewComment for it -/
def ownParentQuery : Query := ⟨.comments, 5, 1, 1⟩

theorem joined_ownParent (n : ℕ) :
    joined (after (step servlet) (idle StoreComment.noComments) ownParent).db ownParentQuery n = [(1, ownParentRow)] := by
  induction n with
  | zero => decide
  | succ n ih =>
    rw [joined, ih]
    decide

theorem answer_ownParent (n : ℕ) :
    answer (after (step servlet) (idle StoreComment.noComments) ownParent).db ownParentQuery n =
      [⟨1, 1, 1, 0, [], [], [], []⟩] := by
  rw [answer, joined_ownParent]
  decide

/-- on a server that answers every join, the search for lower levels of a comment that is its own parent never ends -/
theorem own_parent_never_ends :
    (after (step servlet) (idle StoreComment.noComments) ownParent).running = [] ∧
    viewCommentQuery (after (step servlet) (idle StoreComment.noComments) ownParent).db .comments 5 1 = some ownParentQuery ∧
    ∀ fuel, fetchAndDisplay 0 2
      (fun n => some (answer (after (step servlet) (idle StoreComment.noComments) ownParent).db ownParentQuery n))
      ownParentQuery.parent fuel = .error .endless := by
  refine ⟨by decide, rfl, fun fuel => ?_⟩
  have hlevels : ∀ level, fetchLowerLevels 2
      (fun n => some (answer (after (step servlet) (idle StoreComment.noComments) ownParent).db ownParentQuery n))
      fuel level = .error .endless := by
    induction fuel with
    | zero => exact fun _ => rfl
    | succ fuel ih =>
      intro level
      rw [fetchLowerLevels, answer_ownParent, ih]
      rfl
  rw [fetchAndDisplay, fetchComments, hlevels, answer_ownParent]
  rfl

end Built

end Rubbos.Servlets.CommentFetch
