/-
The paths of a page with comments.

ViewStory and ViewComment come to their comments with a statement (`StoryPage`, `CommentPage`), and from there the comments
are read level by level: the levels can be read as far as they go and are displayed, one of them cannot be read
(`CommentsSlip`), or there is no end to them on the stack of the thread (`CommentsOverflow`): the search goes through more
levels than the stack holds calls, or the comments that it has found have a chain of replies of that length. Where a comment
is below itself there is such a chain for every stack.

- `HelperDiscipline.viewStory`, `HelperDiscipline.viewComment`: the ends of the two pages, for any property of an end.
-/
import Rubbos.Servlets.ExactPaths

namespace Rubbos.Servlets.RequestPaths

open Rubbos.Core Method JString

/-! ## The comments of a page -/

/-- the statement answers, and so many calls on its result go through -/
def Statement.Complete (st : Statement) (n : ℕ) : Prop := st.Answers ∧ st.Readable n

/-- the calls of `displayFilterChooser` on a result -/
def filterReads (rs : List Row) : ℕ := 1 + rs.length * 3 + 1

/-- the calls of `fetchComments` and `fetchLowerLevels` on a result -/
def levelReads (columns : List Text) (rs : List Row) : ℕ := rs.length * (1 + columns.length) + 1 + 1

/-- a level of the comments is read -/
def LevelRead (columns : List Text) (st : Statement) : Prop := st.Complete (levelReads columns st.rows)

section Levels

variable (driver : Driver) (stack : Stack) (display : ℤ)

/-- statement q reads a level below the first that has replies -/
def LevelOn (q : ℕ) : Prop :=
  LevelRead (lowerColumns display) (driver.statement q) ∧ deeper (driver.statement q).rows = true

/-- k levels from statement q on are read, and have replies all of them -/
def LevelsTo (q k : ℕ) : Prop := ∀ i < k, LevelOn driver display (q + i)

/-- the levels from statement q on come to an end; lower are their comments -/
def LowerEnds (q : ℕ) (lower : List Row) : Prop :=
  ∃ k < stack.fetchLowerLevels, LevelsTo driver display q k ∧ LevelRead (lowerColumns display) (driver.statement (q + k)) ∧
    deeper (driver.statement (q + k)).rows = false ∧
    lower = (List.range (k + 1)).flatMap fun i => (driver.statement (q + i)).rows

/-- one of the levels from statement q on cannot be read -/
def LowerFails (q : ℕ) : Prop :=
  ∃ k < stack.fetchLowerLevels, LevelsTo driver display q k ∧
    ¬LevelRead (lowerColumns display) (driver.statement (q + k))

/-- there are more levels from statement q on than the stack holds -/
def LowerOverflows (q : ℕ) : Prop := LevelsTo driver display q stack.fetchLowerLevels

/-- `fetchComments`, from statement q on, has these comments -/
def FetchEnds (q : ℕ) (map : List Row) : Prop :=
  LevelRead commentColumns (driver.statement q) ∧
    (deeper (driver.statement q).rows = false ∧ map = (driver.statement q).rows ∨
      deeper (driver.statement q).rows = true ∧
        ∃ lower, LowerEnds driver stack display (q + 1) lower ∧ map = (driver.statement q).rows ++ lower)

/-- `fetchComments`, from statement q on, throws after a statement has completed -/
def FetchSlips (q : ℕ) : Prop :=
  (driver.statement q).Answers ∧
    (¬LevelRead commentColumns (driver.statement q) ∨
      deeper (driver.statement q).rows = true ∧ LowerFails driver stack display (q + 1))

/-- `fetchComments`, from statement q on, finds no last level on the stack -/
def FetchOverflows (q : ℕ) : Prop :=
  LevelRead commentColumns (driver.statement q) ∧ deeper (driver.statement q).rows = true ∧
    LowerOverflows driver stack display (q + 1)

/-- a chain of n replies below cid, which are counted to have replies all of them -/
inductive Replies (map : List Row) : (n : ℕ) → (cid : ℤ) → Prop
  | none (cid : ℤ) : Replies map 0 cid
  | reply {n : ℕ} {r : Row} (hr : r ∈ map) (hchilds : 0 < r.getInt childsColumn)
      (hbelow : Replies map n (r.getInt idColumn)) : Replies map (n + 1) (r.getInt parentColumn)

/-- below a comment of the first level there are more replies in a chain than the stack holds -/
def PrintOverflows (map : List Row) (parent : ℤ) : Prop :=
  0 < display ∧ ∃ r ∈ map, r.getInt parentColumn = parent ∧ 0 < r.getInt childsColumn ∧
    Replies map stack.displayLowerLevelComments (r.getInt idColumn)

/-- `fetchAndDisplay`, from statement q on, overflows the stack -/
def DisplayOverflows (parent : ℤ) (q : ℕ) : Prop :=
  FetchOverflows driver stack display q ∨
    ∃ map, FetchEnds driver stack display q map ∧ PrintOverflows stack display map parent

/-- on a page whose comments begin with statement p, one that has completed cannot be read, or one behind it fails -/
def CommentsSlip (p : ℕ) : Prop :=
  (driver.statement p).Answers ∧
    (¬(driver.statement p).Readable (filterReads (driver.statement p).rows) ∨ FetchSlips driver stack display (p + 1))

/-- a page whose comments begin with statement p overflows the stack -/
def CommentsOverflow (parent : ℤ) (p : ℕ) : Prop :=
  (driver.statement p).Complete (filterReads (driver.statement p).rows) ∧
    DisplayOverflows driver stack display parent (p + 1)

end Levels

section Levels

variable {driver : Driver} {stack : Stack} {display parent : ℤ} {q k : ℕ}

theorem levelsTo_succ : LevelsTo driver display q (k + 1) ↔ LevelOn driver display q ∧ LevelsTo driver display (q + 1) k := by
  constructor
  · intro h
    refine ⟨h 0 (Nat.succ_pos k), fun i hi => ?_⟩
    rw [Nat.add_assoc, Nat.add_comm 1 i]
    exact h (i + 1) (by omega)
  · rintro ⟨hq, h⟩ i hi
    cases i with
    | zero => exact hq
    | succ i =>
      rw [Nat.add_comm i 1, ← Nat.add_assoc]
      exact h i (by omega)

/-- the levels go on up to the first one that is not read or has no replies -/
theorem LevelsTo.le {m : ℕ} (h : LevelsTo driver display q m) (hk : ¬LevelOn driver display (q + k)) : m ≤ k := by
  by_contra hlt
  exact hk (h k (by omega))

theorem not_levelOn_of_last (h : deeper (driver.statement q).rows = false) : ¬LevelOn driver display q := by
  intro hon
  rw [hon.2] at h
  cases h

theorem LowerEnds.not_fails {lower : List Row} (h : LowerEnds driver stack display q lower) :
    ¬LowerFails driver stack display q := by
  obtain ⟨k, -, hto, hread, hlast, -⟩ := h
  rintro ⟨m, -, hto', hno⟩
  have h1 := hto'.le (not_levelOn_of_last hlast)
  have h2 := hto.le fun hon => hno hon.1
  exact hno (le_antisymm h1 h2 ▸ hread)

theorem LowerEnds.not_overflows {lower : List Row} (h : LowerEnds driver stack display q lower) :
    ¬LowerOverflows driver stack display q := by
  obtain ⟨k, hk, -, -, hlast, -⟩ := h
  intro hover
  have := hover.le (not_levelOn_of_last hlast)
  omega

theorem LowerFails.not_overflows (h : LowerFails driver stack display q) : ¬LowerOverflows driver stack display q := by
  obtain ⟨k, hk, -, hno⟩ := h
  intro hover
  have := hover.le fun hon => hno hon.1
  omega

theorem LowerEnds.unique {lower lower' : List Row} (h : LowerEnds driver stack display q lower)
    (h' : LowerEnds driver stack display q lower') : lower = lower' := by
  obtain ⟨k, -, hto, -, hlast, rfl⟩ := h
  obtain ⟨m, -, hto', -, hlast', rfl⟩ := h'
  rw [le_antisymm (hto.le (not_levelOn_of_last hlast')) (hto'.le (not_levelOn_of_last hlast))]

theorem FetchEnds.unique {map map' : List Row} (h : FetchEnds driver stack display q map)
    (h' : FetchEnds driver stack display q map') : map = map' := by
  obtain ⟨-, ⟨hlast, rfl⟩ | ⟨hdeeper, lower, hlower, rfl⟩⟩ := h
  · obtain ⟨-, ⟨-, rfl⟩ | ⟨hdeeper, -⟩⟩ := h'
    · rfl
    · rw [hlast] at hdeeper
      cases hdeeper
  · obtain ⟨-, ⟨hlast, -⟩ | ⟨-, lower', hlower', rfl⟩⟩ := h'
    · rw [hdeeper] at hlast
      cases hlast
    · rw [hlower.unique hlower']

theorem FetchEnds.not_slips {map : List Row} (h : FetchEnds driver stack display q map) :
    ¬FetchSlips driver stack display q := by
  obtain ⟨hread, hends⟩ := h
  rintro ⟨-, hno | ⟨hdeeper, hfails⟩⟩
  · exact hno hread
  · rcases hends with ⟨hlast, -⟩ | ⟨-, lower, hlower, -⟩
    · rw [hlast] at hdeeper
      cases hdeeper
    · exact hlower.not_fails hfails

theorem FetchEnds.not_overflows {map : List Row} (h : FetchEnds driver stack display q map) :
    ¬FetchOverflows driver stack display q := by
  obtain ⟨-, hends⟩ := h
  rintro ⟨-, hdeeper, hover⟩
  rcases hends with ⟨hlast, -⟩ | ⟨-, lower, hlower, -⟩
  · rw [hlast] at hdeeper
    cases hdeeper
  · exact hlower.not_overflows hover

theorem FetchSlips.not_overflows (h : FetchSlips driver stack display q) :
    ¬DisplayOverflows driver stack display parent q := by
  rintro (⟨hread, hdeeper, hover⟩ | ⟨map, hends, -⟩)
  · obtain ⟨-, hno | ⟨-, hfails⟩⟩ := h
    · exact hno hread
    · exact hfails.not_overflows hover
  · exact hends.not_slips h

theorem DisplayOverflows.answers (h : DisplayOverflows driver stack display parent q) : (driver.statement q).Answers := by
  rcases h with h | ⟨map, h, -⟩
  · exact h.1.1
  · exact h.1.1

end Levels

section Comments

variable {driver : Driver} {S I T F X : St → Prop} {lossy bad : Prop} {s : St} {stack : Stack} {display parent : ℤ} {p q : ℕ}
  {columns : List Text}

/-! ## Printing -/

/-- a loop over comments that changes nothing, and leaves by an error at one of them -/
theorem after_forEach {body : Row → M Unit} {fails : Row → Prop}
    (hbody : ∀ r s, After (body r) s (fun _ s' => s' = s ∧ ¬fails r) (Left (fun s' => s' = s ∧ fails r) fun _ => False))
    (rs : List Row) (s : St) :
    After (forEach body rs) s (fun _ s' => s' = s ∧ ¬∃ r ∈ rs, fails r)
      (Left (fun s' => s' = s ∧ ∃ r ∈ rs, fails r) fun _ => False) := by
  induction rs with
  | nil => exact ⟨rfl, by simp⟩
  | cons r rs ih =>
    rw [forEach, after_bind_iff]
    refine (hbody r s).left ?_ (fun s' hs' => ⟨hs'.1, r, List.mem_cons_self, hs'.2⟩) fun _ hs' => hs'
    rintro _ s' ⟨rfl, hr⟩
    refine ih.left (fun _ s'' hs'' => ⟨hs''.1, ?_⟩) (fun s'' hs'' => ⟨hs''.1, ?_⟩) fun _ hs'' => hs''
    · rintro ⟨r', hr', hfails⟩
      rcases List.mem_cons.1 hr' with rfl | hr'
      · exact hr hfails
      · exact hs''.2 ⟨r', hr', hfails⟩
    · obtain ⟨r', hr', hfails⟩ := hs''.2
      exact ⟨r', List.mem_cons_of_mem r hr', hfails⟩

theorem after_skipped {m : M Unit} {c fails : Prop} [Decidable c] (hm : After m s (fun _ s' => s' = s ∧ ¬fails)
      (Left (fun s' => s' = s ∧ fails) fun _ => False)) :
    After (skipIf c m) s (fun _ s' => s' = s ∧ ¬(¬c ∧ fails)) (Left (fun s' => s' = s ∧ ¬c ∧ fails) fun _ => False) := by
  rw [after_skipIf]
  refine ⟨fun hc => ⟨rfl, fun h => h.1 hc⟩, fun hc => hm.left ?_ (fun s' hs' => ⟨hs'.1, hc, hs'.2⟩) fun _ hs' => hs'⟩
  exact fun _ s' hs' => ⟨hs'.1, fun h => hs'.2 h.2⟩

theorem mem_children {map : List Row} {cid : ℤ} {r : Row} :
    r ∈ children map cid ↔ r ∈ map ∧ r.getInt parentColumn = cid := by simp [children]

theorem replies_succ {map : List Row} {n : ℕ} {cid : ℤ} :
    Replies map (n + 1) cid ↔
      ∃ r ∈ children map cid, ¬r.getInt childsColumn ≤ 0 ∧ Replies map n (r.getInt idColumn) := by
  constructor
  · intro h
    cases h with
    | reply hr hchilds hbelow => exact ⟨_, mem_children.2 ⟨hr, rfl⟩, by omega, hbelow⟩
  · rintro ⟨r, hr, hchilds, hbelow⟩
    obtain ⟨hmap, rfl⟩ := mem_children.1 hr
    exact .reply hmap (by omega) hbelow

/-- the printing below a comment overflows exactly at a chain of replies that fills the stack -/
theorem after_displayLowerLevelComments (map : List Row) (n : ℕ) (cid : ℤ) (s : St) :
    After (displayLowerLevelComments map n cid) s (fun _ s' => s' = s ∧ ¬Replies map n cid)
      (Left (fun s' => s' = s ∧ Replies map n cid) fun _ => False) := by
  induction n generalizing cid s with
  | zero => exact after_jump ⟨rfl, .none cid⟩
  | succ n ih =>
    rw [displayLowerLevelComments, replies_succ]
    exact after_forEach (fun r s => after_skipped (ih _ s)) _ s

theorem after_displayComments (map : List Row) (s : St) :
    After (displayComments map parent display stack) s (fun _ s' => s' = s ∧ ¬PrintOverflows stack display map parent)
      (Left (fun s' => s' = s ∧ PrintOverflows stack display map parent) fun _ => False) := by
  have hprint : PrintOverflows stack display map parent ↔ ∃ r ∈ children map parent,
      ¬(display ≤ 0 ∨ r.getInt childsColumn ≤ 0) ∧ Replies map stack.displayLowerLevelComments (r.getInt idColumn) := by
    constructor
    · rintro ⟨hdisplay, r, hr, hparent, hchilds, hreplies⟩
      exact ⟨r, mem_children.2 ⟨hr, hparent⟩, by omega, hreplies⟩
    · rintro ⟨r, hr, hshown, hreplies⟩
      obtain ⟨hr, hparent⟩ := mem_children.1 hr
      exact ⟨by omega, r, hr, hparent, by omega, hreplies⟩
  rw [hprint]
  exact after_forEach (fun r s => after_skipped (after_displayLowerLevelComments map _ _ s)) _ s

/-! ## Fetching -/

theorem reads_displayFilterChooser (rs : List Row) : Reads driver (filterReads rs) (do
    let _ ← first driver rs
    doWhileNext driver (fun rs => getColumns driver rs [ratingColumn, "count".toList]) rs
    read driver) := by
  rw [filterReads, Nat.add_assoc]
  exact (reads_first rs).bind fun _ =>
    (reads_doWhileNext (fun r rs => reads_getColumns r rs _) rs).bind fun _ => reads_read

theorem reads_fetchLevel (rs : List Row) : Reads driver (levelReads columns rs) (do
    whileNext driver (fun rs => getColumns driver rs columns) rs
    read driver) :=
  (reads_whileNext (fun r rs => reads_getColumns r rs columns) rs).bind fun _ => reads_read

section Discipline

variable (h : HelperDiscipline driver I T F lossy)

include h

theorem HelperDiscipline.after_displayFilterChooser (hs : T s) (htmp : s.logTmpMessage = []) (hp : s.prepared = p) :
    After (displayFilterChooser driver) s
      (fun _ s' => T s' ∧ s'.prepared = p + 1 ∧ (driver.statement p).Complete (filterReads (driver.statement p).rows))
      (Left X fun s' => T s' ∧ (s'.logTmpMessage ≠ [] ↔ (driver.statement p).Answers) ∧
        ¬(driver.statement p).Complete (filterReads (driver.statement p).rows)) := by
  subst hp
  refine after_tmpQuery (fun hno => ?_) fun hanswers => ?_
  · have hT := h.atPrepare s hs
    have hempty : s.logTmpMessage ≠ [] ↔ (driver.statement s.prepared).Answers := iff_of_false (not_not.2 htmp) hno
    exact ⟨⟨hT, hempty, fun hc => hno hc.1⟩, ⟨h.atTick _ hT, hempty, fun hc => hno hc.1⟩⟩
  refine (reads_displayFilterChooser _).fresh rfl (fun hread _ => ?_) (fun hno i => ?_)
  · exact ⟨h.readMany (h.queried hs) _, rfl, hanswers, hread⟩
  · exact ⟨h.readMany (h.queried hs) i, iff_of_true tmp_query hanswers, fun hc => hno hc.2⟩

/-- a level of the comments -/
theorem HelperDiscipline.after_fetchLevel (hs : T s) (hp : s.prepared = q) :
    After (fetchLevel driver columns) s
      (fun rs s' => T s' ∧ s'.logTmpMessage ≠ [] ∧ s'.prepared = q + 1 ∧ LevelRead columns (driver.statement q) ∧
        rs = (driver.statement q).rows)
      (Left X fun s' => T s' ∧ ¬LevelRead columns (driver.statement q) ∧
        (s'.logTmpMessage ≠ [] ↔ (driver.statement q).Answers ∨ s.logTmpMessage ≠ [])) := by
  subst hp
  refine after_tmpQuery (fun hno => ?_) fun hanswers => ?_
  · have hT := h.atPrepare s hs
    have hsame : s.logTmpMessage ≠ [] ↔ (driver.statement s.prepared).Answers ∨ s.logTmpMessage ≠ [] :=
      ⟨.inr, fun h => h.resolve_left hno⟩
    exact ⟨⟨hT, fun hc => hno hc.1, hsame⟩, ⟨h.atTick _ hT, fun hc => hno hc.1, hsame⟩⟩
  rw [← bind_assoc, after_bind_iff]
  refine (reads_fetchLevel _).fresh rfl (fun hread _ => ?_) (fun hno i => ?_)
  · exact ⟨h.readMany (h.queried hs) _, tmp_query, rfl, ⟨hanswers, hread⟩, rfl⟩
  · exact ⟨h.readMany (h.queried hs) i, fun hc => hno hc.2, iff_of_true tmp_query (.inl hanswers)⟩

/-- the levels below the first, by induction on the calls that the stack holds -/
theorem HelperDiscipline.after_fetchLowerLevels (n d : ℕ) (hs : T s) (htmp : s.logTmpMessage ≠ []) (hp : s.prepared = q) :
    After (fetchLowerLevels driver display n) s
      (fun lower s' => T s' ∧ s'.logTmpMessage ≠ [] ∧ LowerEnds driver ⟨n, d⟩ display q lower)
      (Left (fun s' => T s' ∧ s'.logTmpMessage ≠ [] ∧ LowerOverflows driver ⟨n, d⟩ display q)
        fun s' => T s' ∧ s'.logTmpMessage ≠ [] ∧ LowerFails driver ⟨n, d⟩ display q) := by
  induction n generalizing s q with
  | zero => exact after_jump ⟨hs, htmp, fun i hi => absurd hi (Nat.not_lt_zero i)⟩
  | succ n ih =>
    rw [fetchLowerLevels, after_bind_iff]
    refine (h.after_fetchLevel (X := fun s' => T s' ∧ s'.logTmpMessage ≠ [] ∧ LowerOverflows driver ⟨n + 1, d⟩ display q)
      hs hp).left ?_ (fun _ hs' => hs') ?_
    · rintro rs s' ⟨hs', htmp', hp', hread, rfl⟩
      rw [after_ite_iff]
      refine ⟨fun hdeeper => ?_, fun hlast => ?_⟩
      · have hon : LevelOn driver display q := ⟨hread, hdeeper⟩
        rw [after_bind_iff]
        refine (ih hs' htmp' hp').left ?_ ?_ ?_
        · rintro lower s'' ⟨hs'', htmp'', k, hk, hto, hreadk, hlast, rfl⟩
          refine ⟨hs'', htmp'', k + 1, Nat.succ_lt_succ hk, levelsTo_succ.2 ⟨hon, hto⟩, ?_, ?_, ?_⟩
          · rwa [Nat.add_comm k 1, ← Nat.add_assoc]
          · rwa [Nat.add_comm k 1, ← Nat.add_assoc]
          · rw [List.range_succ_eq_map (n := k + 1), List.flatMap_cons, List.flatMap_map]
            simp only [Nat.add_zero, Nat.succ_eq_add_one, Nat.add_comm _ 1, ← Nat.add_assoc]
        · rintro s'' ⟨hs'', htmp'', hto⟩
          exact ⟨hs'', htmp'', levelsTo_succ.2 ⟨hon, hto⟩⟩
        · rintro s'' ⟨hs'', htmp'', k, hk, hto, hno⟩
          refine ⟨hs'', htmp'', k + 1, Nat.succ_lt_succ hk, levelsTo_succ.2 ⟨hon, hto⟩, ?_⟩
          rwa [Nat.add_comm k 1, ← Nat.add_assoc]
      · refine after_pure ⟨hs', htmp', 0, Nat.succ_pos n, fun i hi => absurd hi (Nat.not_lt_zero i), hread, ?_, ?_⟩
        · exact eq_false_of_ne_true hlast
        · simp
    · rintro s' ⟨hs', hno, htmp'⟩
      exact ⟨hs', htmp'.2 (.inr htmp), 0, Nat.succ_pos n, fun i hi => absurd hi (Nat.not_lt_zero i), hno⟩

theorem HelperDiscipline.after_fetchComments (hs : T s) (htmp : s.logTmpMessage = []) (hp : s.prepared = q) :
    After (fetchComments driver display stack) s
      (fun map s' => T s' ∧ s'.logTmpMessage ≠ [] ∧ FetchEnds driver stack display q map)
      (Left (fun s' => T s' ∧ s'.logTmpMessage ≠ [] ∧ FetchOverflows driver stack display q)
        fun s' => T s' ∧ (s'.logTmpMessage ≠ [] ↔ FetchSlips driver stack display q) ∧
          (s'.logTmpMessage = [] → ¬(driver.statement q).Answers)) := by
  rw [fetchComments, after_bind_iff]
  refine (h.after_fetchLevel (X := fun s' => T s' ∧ s'.logTmpMessage ≠ [] ∧ FetchOverflows driver stack display q)
    hs hp).left ?_ (fun _ hs' => hs') ?_
  · rintro rs s' ⟨hs', htmp', hp', hread, rfl⟩
    rw [after_ite_iff]
    refine ⟨fun hdeeper => ?_, fun hlast => ?_⟩
    · rw [after_bind_iff]
      refine (h.after_fetchLowerLevels stack.fetchLowerLevels stack.displayLowerLevelComments hs' htmp' hp').left ?_ ?_ ?_
      · rintro lower s'' ⟨hs'', htmp'', hends⟩
        exact ⟨hs'', htmp'', hread, .inr ⟨hdeeper, lower, hends, rfl⟩⟩
      · rintro s'' ⟨hs'', htmp'', hover⟩
        exact ⟨hs'', htmp'', hread, hdeeper, hover⟩
      · rintro s'' ⟨hs'', htmp'', hfails⟩
        exact ⟨hs'', iff_of_true htmp'' ⟨hread.1, .inr ⟨hdeeper, hfails⟩⟩, fun hnil => absurd hnil htmp''⟩
    · exact after_pure ⟨hs', htmp', hread, .inl ⟨eq_false_of_ne_true hlast, rfl⟩⟩
  · rintro s' ⟨hs', hno, htmp'⟩
    refine ⟨hs', htmp'.trans ⟨fun hor => ?_, fun hslip => .inl hslip.1⟩, fun hnil ha => htmp'.2 (.inl ha) hnil⟩
    exact ⟨hor.resolve_right (not_not.2 htmp), .inl hno⟩

theorem HelperDiscipline.after_fetchAndDisplay (hs : T s) (htmp : s.logTmpMessage = []) (hp : s.prepared = q) :
    After (fetchAndDisplay driver display parent stack) s
      (fun _ s' => T s' ∧ ¬FetchSlips driver stack display q ∧ ¬DisplayOverflows driver stack display parent q)
      (Left (fun s' => T s' ∧ s'.logTmpMessage ≠ [] ∧ DisplayOverflows driver stack display parent q)
        fun s' => T s' ∧ (s'.logTmpMessage ≠ [] ↔ FetchSlips driver stack display q) ∧
          ¬DisplayOverflows driver stack display parent q) := by
  rw [fetchAndDisplay, after_bind_iff]
  refine (h.after_fetchComments hs htmp hp).left ?_ ?_ ?_
  · rintro map s' ⟨hs', htmp', hends⟩
    refine (after_displayComments map s').left ?_ ?_ fun _ hs'' => hs''.elim
    · rintro _ s'' ⟨rfl, hprint⟩
      refine ⟨hs', hends.not_slips, ?_⟩
      rintro (hover | ⟨map', hends', hprint'⟩)
      · exact hends.not_overflows hover
      · rw [hends'.unique hends] at hprint'
        exact hprint hprint'
    · rintro s'' ⟨rfl, hprint⟩
      exact ⟨hs', htmp', .inr ⟨map, hends, hprint⟩⟩
  · rintro s' ⟨hs', htmp', hover⟩
    exact ⟨hs', htmp', .inl hover⟩
  · rintro s' ⟨hs', htmp', hnil⟩
    refine ⟨hs', htmp', ?_⟩
    by_cases hempty : s'.logTmpMessage = []
    · exact fun hover => hnil hempty hover.answers
    · exact (htmp'.1 hempty).not_overflows

/-- the comments of a page, and its end -/
theorem HelperDiscipline.after_chooserAndComments (d : Discipline driver .R S I F) (hs : I s) (hp : s.prepared = p)
    (hbad : bad ↔ lossy ∧ CommentsSlip driver stack display p ∨ CommentsOverflow driver stack display parent p) :
    After (chooserAndComments driver display parent stack >>= fun _ => (finish .R : M Unit)) s (fun _ => Exact F bad)
      (Left (Exact F bad) (Exact F bad)) := by
  let Chosen : St → Prop := fun s' => I s' ∧ s'.prepared = p + 1 ∧
    (driver.statement p).Complete (filterReads (driver.statement p).rows)
  rw [chooserAndComments, bind_assoc]
  refine after_try (I := Chosen) ?_ (h.settled_finish d) fun _ s' hs' => ?_
  · refine h.after_withTmp (P := fun s' => s'.prepared = p + 1 ∧
      (driver.statement p).Complete (filterReads (driver.statement p).rows)) hs ?_ fun s' hs' hP => ⟨hs', hP⟩
    intro s' hs' htmp hprepared
    refine (h.after_displayFilterChooser (X := fun _ => False) hs' htmp (hprepared.trans hp)).left (fun _ _ hs'' => hs'')
      (fun _ hs'' => hs''.elim) ?_
    rintro s'' ⟨hs'', htmp', hno⟩
    refine ⟨hs'', fun hnil => ?_, fun hne => ?_⟩
    · have hanswers : ¬(driver.statement p).Answers := fun ha => htmp'.2 ha hnil
      rw [hbad]
      rintro (⟨-, hslip⟩ | hover)
      · exact hanswers hslip.1
      · exact hanswers hover.1.1
    · have hslip : CommentsSlip driver stack display p := ⟨htmp'.1 hne, .inl fun hr => hno ⟨htmp'.1 hne, hr⟩⟩
      rw [hbad]
      exact ⟨fun hb => (hb.resolve_right fun hover => hno hover.1).1, fun hl => .inl ⟨hl, hslip⟩⟩
  · obtain ⟨hs', hp', hcomplete⟩ := hs'
    have hfetch : bad ↔ lossy ∧ FetchSlips driver stack display (p + 1) ∨
        DisplayOverflows driver stack display parent (p + 1) := by
      rw [hbad]
      refine or_congr (and_congr_right fun _ => ?_) ⟨fun hover => hover.2, fun hover => ⟨hcomplete, hover⟩⟩
      exact ⟨fun hslip => hslip.2.resolve_left (not_not.2 hcomplete.2), fun hslip => ⟨hcomplete.1, .inr hslip⟩⟩
    refine after_try (I := Going I bad) ?_ (h.settled_finish d) fun _ => (d.exact bad).finish_ends
    refine h.after_withTmp (P := fun _ => ¬bad) hs' ?_ fun s'' hs'' hno => ⟨hs'', hno⟩
    intro s'' hs'' htmp hprepared
    refine (h.after_fetchAndDisplay hs'' htmp (hprepared.trans hp')).left ?_ ?_ ?_
    · rintro _ t ⟨ht, hno, hno'⟩
      exact ⟨ht, fun hb => (hfetch.1 hb).elim (fun hslip => hno hslip.2) hno'⟩
    · rintro t ⟨ht, htmp', hover⟩
      exact ⟨ht, htmp', hfetch.2 (.inr hover)⟩
    · rintro t ⟨ht, htmp', hno⟩
      refine ⟨ht, fun hnil hb => ?_, fun hne => ?_⟩
      · exact (hfetch.1 hb).elim (fun hslip => htmp'.2 hslip.2 hnil) hno
      · exact ⟨fun hb => ((hfetch.1 hb).resolve_right hno).1, fun hl => hfetch.2 (.inl ⟨hl, htmp'.1 hne⟩)⟩

end Discipline

end Comments

/-! ## Pages with comments -/

/-- the parameters of a servlet are there -/
def Present (request : Request) (names : List Text) : Prop := ∀ name ∈ names, request.getParameter name ≠ none

theorem present_nil (request : Request) : Present request [] := fun _ h => absurd h List.not_mem_nil

theorem present_cons {request : Request} {name : Text} {names : List Text} (h : request.getParameter name ≠ none)
    (hs : Present request names) : Present request (name :: names) := List.forall_mem_cons.2 ⟨h, hs⟩

/-- ViewComment comes to its comments with statement p, and asks for those below parent -/
def ParentFound (driver : Driver) (commentId parent : ℤ) (p : ℕ) : Prop :=
  (commentId = 0 ∧ parent = 0 ∧ p = 0) ∨
    (commentId ≠ 0 ∧ p = 1 ∧ (driver.statement 0).Complete 3 ∧
      ∃ r rs, (driver.statement 0).rows = r :: rs ∧ r.getInt parentColumn = parent)

/-- ViewStory comes to its comments with statement p -/
def StoryFound (driver : Driver) (p : ℕ) : Prop :=
  (p = 1 ∧ (driver.statement 0).Complete 6 ∧ (driver.statement 0).rows ≠ []) ∨
    (p = 2 ∧ (driver.statement 0).Complete 2 ∧ (driver.statement 0).rows = [] ∧ (driver.statement 1).Complete 5 ∧
      (driver.statement 1).rows ≠ [])

/-- a page of ViewComment that comes to its comments, of which Q says something -/
def CommentPage (request : Request) (driver : Driver) (Q : (display parent : ℤ) → (p : ℕ) → Prop) : Prop :=
  Present request [storyIdName, comment_tableName] ∧ optional request filterName 0 ≠ none ∧
    ∃ display commentId parent p, optional request displayName 0 = some display ∧
      number (request.getParameter commentIdName) = some commentId ∧ ParentFound driver commentId parent p ∧ Q display parent p

/-- a page of ViewStory that comes to its comments, of which Q says something -/
def StoryPage (request : Request) (driver : Driver) (Q : (p : ℕ) → Prop) : Prop :=
  number (request.getParameter storyIdName) ≠ none ∧ optional request filterName 0 ≠ none ∧
    ∃ p, StoryFound driver p ∧ Q p

section Pages

variable {driver : Driver} {S I T F : St → Prop} {lossy bad : Prop} {s : St} {stack : Stack} {request : Request}

theorem ParentFound.unique {commentId parent parent' : ℤ} {p q : ℕ} (h : ParentFound driver commentId parent p)
    (h' : ParentFound driver commentId parent' q) : parent = parent' ∧ p = q := by
  obtain ⟨hzero, rfl, rfl⟩ | ⟨hne, rfl, -, r, rs, hrows, rfl⟩ := h
  · obtain ⟨-, rfl, rfl⟩ | ⟨hne, -⟩ := h'
    · exact ⟨rfl, rfl⟩
    · exact absurd hzero hne
  · obtain ⟨hzero, -⟩ | ⟨-, rfl, -, r', rs', hrows', rfl⟩ := h'
    · exact absurd hzero hne
    · rw [hrows, List.cons.injEq] at hrows'
      exact ⟨by rw [hrows'.1], rfl⟩

theorem StoryFound.unique {p q : ℕ} (h : StoryFound driver p) (h' : StoryFound driver q) : p = q := by
  obtain ⟨rfl, -, hne⟩ | ⟨rfl, -, hnil, -⟩ := h
  · obtain ⟨rfl, -⟩ | ⟨-, -, hnil, -⟩ := h'
    · rfl
    · exact absurd hnil hne
  · obtain ⟨-, -, hne⟩ | ⟨rfl, -⟩ := h'
    · exact absurd hnil hne
    · rfl

/-- the columns of the story, behind the test for its row -/
theorem reads_story (r : Row) (rs : List Row) : Reads driver 5 (do
    read driver
    getColumns driver (r :: rs) [nicknameName, dateColumn, titleColumn, bodyColumn]) :=
  reads_read.bind fun _ => reads_getColumns r rs _

/-- the parent of the comment, behind the test for its row -/
theorem after_selectParentRow (r : Row) (rs : List Row) {s : St} {J : Jump → St → Prop} {Q : ℤ → St → Prop}
    (h0 : s.reads = 0) (hok : (driver.statement s.executed).Readable 3 → Q (r.getInt parentColumn) (s.readMany 3))
    (hthrows : ¬(driver.statement s.executed).Readable 3 → ∀ i, J .thrown (s.readMany i)) :
    After (do
      read driver
      let parent ← getInt driver (r :: rs) parentColumn
      read driver
      return parent) s Q J := by
  have heq : (do
      read driver
      let parent ← getInt driver (r :: rs) parentColumn
      read driver
      return parent) = (do
      read driver
      read driver
      read driver) >>= fun _ => (pure (r.getInt parentColumn) : M ℤ) := by
    simp only [getInt, currentRow, bind_assoc, pure_bind]
  have hreads : Reads driver 3 (do
      read driver
      read driver
      read driver) := reads_read.bind fun _ => reads_read.bind fun _ => reads_read
  rw [heq, after_bind_iff]
  exact hreads.fresh h0 (fun hread _ => after_pure (hok hread)) hthrows

/-- the try block for the parent in ViewComment -/
theorem Discipline.after_selectParent (d : Discipline driver .R S I F) (hs : I s) (hfirst : s.prepared = 0) {commentId : ℤ}
    (hne : commentId ≠ 0) (hbad : bad → ∃ parent, ParentFound driver commentId parent 1) {m : ℤ → M Unit}
    (hm : ∀ parent s', I s' → s'.prepared = 1 → ParentFound driver commentId parent 1 →
      After (m parent) s' (fun _ => Exact F bad) (Left (Exact F bad) (Exact F bad))) :
    After (selectParent driver >>= m) s (fun _ => Exact F bad) (Left (Exact F bad) (Exact F bad)) := by
  have hd := d.exact bad
  have hlater : bad → (driver.statement 0).Complete 3 ∧ (driver.statement 0).rows ≠ [] := by
    intro hb
    obtain ⟨parent, ⟨hzero, -⟩ | ⟨-, -, hcomplete, r, rs, hrows, -⟩⟩ := hbad hb
    · exact absurd hzero hne
    · refine ⟨hcomplete, ?_⟩
      rw [hrows]
      exact List.cons_ne_nil r rs
  rw [selectParent, after_bind_iff, after_catching_iff, after_bind_iff]
  refine d.after_prepareAndExecute hs (fun hno s' hs' => ?_) fun hanswers => ?_
  · rw [hfirst] at hno
    rw [if_pos rfl, after_finish]
    exact hd.atFinish s' ⟨hs', fun hb => hno (hlater hb).1.1⟩
  have hqueried := d.queried hs
  have hexecuted : (s.queried driver).executed = 0 := hfirst
  rw [hfirst] at hanswers ⊢
  cases hrows : (driver.statement 0).rows with
  | nil =>
    have hno : ¬bad := fun hb => (hlater hb).2 hrows
    refine d.after_first_empty hqueried hno ?_ fun s' hs' => hs'
    rw [if_pos rfl, after_finish]
    exact hd.atFinish _ ⟨hqueried, hno⟩
  | cons r rs =>
    rw [first_found]
    refine after_selectParentRow r rs rfl (fun hread => ?_) fun hno i => ?_
    · rw [hexecuted] at hread
      refine hm _ _ (d.readMany hqueried 3) ?_ (.inr ⟨hne, rfl, ⟨hanswers, hread⟩, r, rs, hrows, rfl⟩)
      show s.prepared + 1 = 1
      rw [hfirst]
    · rw [hexecuted] at hno
      rw [if_pos rfl, after_finish]
      exact hd.atFinish _ ⟨d.readMany hqueried i, fun hb => hno (hlater hb).1.2⟩

/-- the try block of the story in ViewStory, behind its first query -/
theorem Discipline.after_story (d : Discipline driver .R S I F) (hs : I s) (hprepared : s.prepared = 1)
    (hexecuted : s.executed = 0) (hreads : s.reads = 0) (hanswers : (driver.statement 0).Answers)
    (hbad : bad → ∃ p, StoryFound driver p) {m : Unit → M Unit}
    (hm : ∀ s', I s' → StoryFound driver s'.prepared →
      After (m ()) s' (fun _ => Exact F bad) (Left (Exact F bad) (Exact F bad))) :
    After (catching
      (do
        let rs ← executeOld driver (driver.statement 0).rows
        let found ← first driver rs
        finishIf .R (found = false)
        getColumns driver rs [nicknameName, dateColumn, titleColumn, bodyColumn])
      (finish .R) >>= m) s (fun _ => Exact F bad) (Left (Exact F bad) (Exact F bad)) := by
  have hd := d.exact bad
  refine after_try (I := fun s' => I s' ∧ StoryFound driver s'.prepared) ?_ hd.finish_ends fun _ s' hs' => hm s' hs'.1 hs'.2
  rw [executeOld, bind_assoc, after_bind_iff]
  have hread0 : ¬(driver.statement s.executed).Readable 1 → ¬bad := by
    rw [hexecuted]
    intro hno hb
    obtain ⟨p, ⟨-, hcomplete, -⟩ | ⟨-, hcomplete, -⟩⟩ := hbad hb
    · exact hno fun i hi => hcomplete.2 i (by omega)
    · exact hno fun i hi => hcomplete.2 i (by omega)
  have hs1 : I s.readOne := d.atRead s hs
  refine after_firstRow (fun hno => ⟨hs, hread0 hno⟩) hreads fun hread => ?_
  rw [hexecuted] at hread
  have hstate : (driver.statement s.readOne.executed).Readable s.readOne.reads := by
    show (driver.statement s.executed).Readable (s.reads + 1)
    rwa [hexecuted, hreads]
  cases hrows : (driver.statement 0).rows with
  | cons r rs =>
    rw [List.isEmpty_cons, Bool.not_false, if_pos rfl, pure_bind, first_found]
    have hsix : (driver.statement s.readOne.executed).Readable (s.readOne.reads + 5) ↔ (driver.statement 0).Readable 6 := by
      show (driver.statement s.executed).Readable (s.reads + 1 + 5) ↔ _
      rw [hexecuted, hreads]
    refine (reads_story r rs).after hstate (fun hread' _ => ?_) (fun hno i => ⟨d.readMany hs1 i, fun hb => ?_⟩)
    · exact ⟨d.readMany hs1 5, .inl ⟨hprepared, ⟨hanswers, hsix.1 hread'⟩, by rw [hrows]; exact List.cons_ne_nil r rs⟩⟩
    · obtain ⟨p, ⟨-, hcomplete, -⟩ | ⟨-, -, hnil, -⟩⟩ := hbad hb
      · exact hno (hsix.2 hcomplete.2)
      · rw [hrows] at hnil
        cases hnil
  | nil =>
    have hold : bad → (driver.statement 0).Readable 2 ∧ (driver.statement 1).Complete 5 ∧
        (driver.statement 1).rows ≠ [] := by
      intro hb
      obtain ⟨p, ⟨-, -, hne⟩ | ⟨-, hcomplete, -, hold⟩⟩ := hbad hb
      · exact absurd hrows hne
      · exact ⟨hcomplete.2, hold⟩
    have htwo : (driver.statement s.readOne.executed).Readable (s.readOne.reads + 1) ↔ (driver.statement 0).Readable 2 := by
      show (driver.statement s.executed).Readable (s.reads + 1 + 1) ↔ _
      rw [hexecuted, hreads]
    have hs2 : I (s.readOne.readMany 1) := d.readMany hs1 1
    have hone : (s.readOne.readMany 1).prepared = 1 := hprepared
    rw [List.isEmpty_nil, Bool.not_true, if_neg Bool.false_ne_true, bind_assoc, after_bind_iff]
    refine reads_read.after hstate (fun hread' _ => ?_)
      (fun hno i => ⟨d.readMany hs1 i, fun hb => hno (htwo.2 (hold hb).1)⟩)
    rw [after_bind_iff]
    refine d.after_prepareAndExecute hs2 (fun hno s' hs' => ⟨hs', fun hb => hno ?_⟩) fun hanswers1 => ?_
    · rw [hone]
      exact (hold hb).2.1.1
    rw [hone] at hanswers1 ⊢
    have hs3 : I ((s.readOne.readMany 1).queried driver) := d.queried hs2
    have hfive : (driver.statement ((s.readOne.readMany 1).queried driver).executed).Readable 5 ↔
        (driver.statement 1).Readable 5 := by
      show (driver.statement s.prepared).Readable 5 ↔ _
      rw [hprepared]
    cases hrows1 : (driver.statement 1).rows with
    | nil =>
      have hno : ¬bad := fun hb => (hold hb).2.2 hrows1
      exact d.after_first_empty hs3 hno ⟨hs3, hno⟩ fun s' hs' => hs'
    | cons r rs =>
      rw [first_found]
      refine (reads_story r rs).fresh rfl (fun hread'' _ => ?_) (fun hno i => ?_)
      · refine ⟨d.readMany hs3 5, .inr ⟨?_, ⟨hanswers, htwo.1 hread'⟩, hrows, ⟨hanswers1, hfive.1 hread''⟩, ?_⟩⟩
        · show s.prepared + 1 = 2
          rw [hprepared]
        · rw [hrows1]
          exact List.cons_ne_nil r rs
      · exact ⟨d.readMany hs3 i, fun hb => hno (hfive.2 (hold hb).2.1.2)⟩

/-- **The end of ViewComment**: it is bad exactly when the page comes to its comments, and these slip or overflow. -/
theorem HelperDiscipline.viewComment (h : HelperDiscipline driver I T F lossy) (d : Discipline driver .R S I F)
    (hinit : S St.init) (hbad : bad ↔ CommentPage request driver fun display parent p =>
      lossy ∧ CommentsSlip driver stack display p ∨ CommentsOverflow driver stack display parent p) :
    After (viewComment request driver stack) St.init (fun _ => Exact F bad) (Left (Exact F bad) (Exact F bad)) := by
  have hF : F St.init := d.atStart _ hinit
  refine intParameter_step hF (fun hno hb => (hbad.1 hb).2.1 hno) fun filter hfilter => ?_
  refine intParameter_step hF (fun hno hb => ?_) fun display hdisplay => ?_
  · obtain ⟨-, -, display, -, -, -, hdisplay, -⟩ := hbad.1 hb
    rw [hno] at hdisplay
    cases hdisplay
  refine parameter_step hF (fun hno hb => (hbad.1 hb).1 _ (by simp) hno) fun hstory => ?_
  have hcomment : number (request.getParameter commentIdName) = none → ¬bad := by
    intro hno hb
    obtain ⟨-, -, -, commentId, -, -, -, hcommentId, -⟩ := hbad.1 hb
    rw [hno] at hcommentId
    cases hcommentId
  refine parameter_step hF (fun hno => hcomment (by rw [hno]; rfl)) fun _ => ?_
  refine valueOf_step hF hcomment fun commentId hcommentId => ?_
  refine parameter_step hF (fun hno hb => (hbad.1 hb).1 _ (by simp) hno) fun htable => acquire_step ?_
  have hfound : bad ↔ ∃ parent p, ParentFound driver commentId parent p ∧
      (lossy ∧ CommentsSlip driver stack display p ∨ CommentsOverflow driver stack display parent p) := by
    rw [hbad]
    constructor
    · rintro ⟨-, -, display', commentId', parent, p, hdisplay', hcommentId', hp⟩
      rw [hdisplay, Option.some.injEq] at hdisplay'
      rw [hcommentId, Option.some.injEq] at hcommentId'
      subst hdisplay' hcommentId'
      exact ⟨parent, p, hp⟩
    · rintro ⟨parent, p, hp⟩
      refine ⟨present_cons hstory (present_cons htable (present_nil _)), ?_, display, commentId, parent, p, hdisplay,
        hcommentId, hp⟩
      rw [hfilter]
      exact Option.some_ne_none filter
  -- with its parent the page is decided by its comments
  have hcomments : ∀ parent p s', I s' → s'.prepared = p → ParentFound driver commentId parent p →
      After (chooserAndComments driver display parent stack >>= fun _ => (finish .R : M Unit)) s' (fun _ => Exact F bad)
        (Left (Exact F bad) (Exact F bad)) := by
    intro parent p s' hs' hp hparent
    refine h.after_chooserAndComments d hs' hp (hfound.trans ⟨?_, fun hb => ⟨parent, p, hparent, hb⟩⟩)
    rintro ⟨parent', p', hparent', hb⟩
    obtain ⟨rfl, rfl⟩ := hparent.unique hparent'
    exact hb
  have hacquired : I (St.init.acquire .R) := d.atAcquire _ hinit
  by_cases hzero : commentId = 0
  · rw [if_pos hzero, pure_bind]
    exact hcomments 0 0 _ hacquired rfl (.inl ⟨hzero, rfl, rfl⟩)
  · rw [if_neg hzero]
    refine d.after_selectParent hacquired rfl hzero (fun hb => ?_) fun parent s' hs' hp hparent =>
      hcomments parent 1 s' hs' hp hparent
    obtain ⟨parent, p, hparent, -⟩ := hfound.1 hb
    obtain ⟨h0, -⟩ | ⟨-, rfl, -⟩ := id hparent
    · exact absurd h0 hzero
    · exact ⟨parent, hparent⟩

/-- **The end of ViewStory**: it is bad exactly when the page comes to its comments, and these slip or overflow. -/
theorem HelperDiscipline.viewStory (h : HelperDiscipline driver I T F lossy) (d : Discipline driver .R S I F)
    (hinit : S St.init) (hbad : bad ↔ StoryPage request driver fun p =>
      lossy ∧ CommentsSlip driver stack 1 p ∨ CommentsOverflow driver stack 1 0 p) :
    After (viewStory request driver stack) St.init (fun _ => Exact F bad) (Left (Exact F bad) (Exact F bad)) := by
  have hF : F St.init := d.atStart _ hinit
  have hno : number (request.getParameter storyIdName) = none → ¬bad := fun hn hb => (hbad.1 hb).1 hn
  refine parameter_step hF (fun hn => hno (by rw [hn]; rfl)) fun _ => ?_
  refine valueOf_step hF hno fun storyId hstoryId => ?_
  refine intParameter_step hF (fun hn hb => (hbad.1 hb).2.1 hn) fun filter hfilter => acquire_step ?_
  have hfound : bad ↔ ∃ p, StoryFound driver p ∧
      (lossy ∧ CommentsSlip driver stack 1 p ∨ CommentsOverflow driver stack 1 0 p) := by
    rw [hbad]
    refine ⟨fun hb => hb.2.2, fun hb => ⟨?_, ?_, hb⟩⟩
    · rw [hstoryId]
      exact Option.some_ne_none storyId
    · rw [hfilter]
      exact Option.some_ne_none filter
  have hacquired : I (St.init.acquire .R) := d.atAcquire _ hinit
  refine d.after_query hacquired (fun hn hb => ?_) fun hanswers => ?_
  · obtain ⟨p, ⟨-, hcomplete, -⟩ | ⟨-, hcomplete, -⟩, -⟩ := hfound.1 hb
    · exact hn hcomplete.1
    · exact hn hcomplete.1
  refine d.after_story (d.queried hacquired) rfl rfl rfl hanswers (fun hb => (hfound.1 hb).imp fun _ hp => hp.1)
    fun s' hs' hstory => ?_
  refine h.after_chooserAndComments d hs' rfl (hfound.trans ⟨?_, fun hb => ⟨_, hstory, hb⟩⟩)
  rintro ⟨p, hp, hb⟩
  rwa [hstory.unique hp]

end Pages

end Rubbos.Servlets.RequestPaths
