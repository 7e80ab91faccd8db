/-
The request listener (`ReqListener.java`), for any number of threads.

A request begins with `requestInitialized` and ends with `requestDestroyed`, both in the thread that serves it. The start times
of a request wait in two tables under the name of the thread. At its end a record is appended to a buffer, under a lock; the
thread that appends the twentieth takes the buffer away, lets go of the lock, and only then hands it to `context.log`. Every
access to shared data is a step of its own, and the events say which thread takes its next step and what the clocks show.

`Progress` is what the listener is for: it follows the steps of one thread alone, and a request that has been served gets the
record of its own times.

- `records_conserved`: in every interleaving, every thread's records are in the batches that have been logged, in a batch that
  some thread is about to log, or in the buffer.
- `batch_in_flight`: the third place is needed: nineteen requests are over, and nothing has been logged.
-/
import Rubbos.Core.Run
import Rubbos.Parsers.TomcatLogs

namespace Rubbos.Servlets.ReqListener

open Rubbos.Core

/-! ## Model -/

/-- what is read of an `HttpServletRequest` -/
structure HttpServletRequest where
  requestURI : Text
  urlID : Option Text
deriving DecidableEq

/-- what a thread finds when it takes a step: the clocks, and its request (none if it is no `HttpServletRequest`) -/
structure Tick where
  currentTimeMillis : ℤ
  nanoTime : ℤ
  request : Option HttpServletRequest
deriving DecidableEq

/-- what is appended for a request -/
structure Record where
  ts : ℤ
  threadName : Text
  request : Option HttpServletRequest
  start_time : ℤ
  end_time : ℤ
  start_time_milli : ℤ
deriving DecidableEq

/-- where a thread is -/
inductive Point where
  | outside
  /-- in `requestInitialized`, before `ht.put` -/
  | putTime (start_time start_time_milli : ℤ)
  /-- before `ht_milli.put` -/
  | putMilli (start_time_milli : ℤ)
  /-- between the two calls -/
  | serving
  /-- in `requestDestroyed`, before `ht.get` -/
  | getTime (end_time : ℤ) (request : Option HttpServletRequest)
  /-- before `ht_milli.get` -/
  | getMilli (end_time : ℤ) (request : Option HttpServletRequest) (start_time : Option ℤ)
  /-- before `synchronized` -/
  | append (r : Record)
  /-- behind the block, with the buffer if it has taken it away -/
  | leave (outputSB : Option Text)
deriving DecidableEq

structure St (τ : Type) where
  ht : Text → Option ℤ
  ht_milli : Text → Option ℤ
  count : ℤ
  sb : Text
  /-- what has been handed to `context.log` -/
  logged : List Text
  threads : τ → Point

def OUTPUT_FREQUENCY : ℕ := 20

def SAMPLING_RATIO : ℤ := 100

/-- whether a request is left out of the sample -/
def skipped (end_time : ℤ) : Prop := (end_time.tdiv 1000).tmod (Int.tdiv 100 SAMPLING_RATIO) ≠ 0

instance (end_time : ℤ) : Decidable (skipped end_time) := inferInstanceAs (Decidable (_ ≠ _))

/-- the difference of two longs, in microseconds -/
def Record.time_micro (r : Record) : ℤ := ((r.end_time - r.start_time).bmod (2 ^ 64)).tdiv 1000

/-- a parameter, spliced into a text -/
def orNull (parameter : Option Text) : Text := parameter.getD "null".toList

section Listener

-- `format` prints a time in the time zone of the machine, `name` is the name of a thread
variable {τ : Type} [DecidableEq τ] (format : ℤ → Text) (name : τ → Text)

def Record.line (r : Record) : Text :=
  format r.ts ++ " ".toList ++ "ThreaD:".toList ++ r.threadName ++ " pad".toList ++ " ".toList ++
    (match r.request with
      | some request => request.requestURI ++ "?urlID=".toList ++ orNull request.urlID
      | none => "Unknown".toList) ++
    " ".toList ++ longText r.time_micro ++ " pad".toList ++ " pad".toList ++ " ST(nano)=".toList ++ longText r.start_time ++
    " ET(nano)=".toList ++ longText r.end_time ++ " timestamp=".toList ++ longText r.start_time_milli

/-- what is appended: a record begins a new line -/
def Record.text (r : Record) : Text := '\n' :: r.line format

def St.goto (s : St τ) (t : τ) (p : Point) : St τ := { s with threads := Function.update s.threads t p }

/-- the block under the lock -/
def St.append (s : St τ) (t : τ) (r : Record) : St τ :=
  if s.count + 1 = OUTPUT_FREQUENCY then
    { s.goto t (.leave (some (s.sb ++ r.text format))) with count := 0, sb := [] }
  else { s.goto t (.leave none) with count := s.count + 1, sb := s.sb ++ r.text format }

/-- the next step of a thread -/
def step (s : St τ) (e : τ × Tick) : St τ :=
  match s.threads e.1 with
  | .outside => s.goto e.1 (.putTime e.2.nanoTime e.2.currentTimeMillis)
  | .putTime start_time start_time_milli =>
    { s.goto e.1 (.putMilli start_time_milli) with ht := Function.update s.ht (name e.1) (some start_time) }
  | .putMilli start_time_milli =>
    { s.goto e.1 .serving with ht_milli := Function.update s.ht_milli (name e.1) (some start_time_milli) }
  | .serving => s.goto e.1 (if skipped e.2.nanoTime then .outside else .getTime e.2.nanoTime e.2.request)
  | .getTime end_time request => s.goto e.1 (.getMilli end_time request (s.ht (name e.1)))
  | .getMilli end_time request start_time =>
    match start_time, s.ht_milli (name e.1) with
    | some start_time, some start_time_milli =>
      s.goto e.1 (.append ⟨e.2.currentTimeMillis, name e.1, request, start_time, end_time, start_time_milli⟩)
    | _, _ => s.goto e.1 .outside
  | .append r => s.append format e.1 r
  | .leave none => s.goto e.1 .outside
  | .leave (some outputSB) => { s.goto e.1 .outside with logged := s.logged ++ [outputSB] }

/-- no thread has served a request -/
def start : St τ := ⟨fun _ => none, fun _ => none, 0, [], [], fun _ => .outside⟩

end Listener

/-- a record is a row of the access log, as the parsers read it -/
theorem line_eq_row {format : ℤ → Text} {r : Record} (row : Parsers.TomcatLogs.AccessRow)
    (hts : format r.ts = row.date.text ++ ' ' :: row.time.text) (hthread : r.threadName = row.thread)
    (hrequest : r.request = some ⟨row.uri, some row.id⟩) (hmicro : r.time_micro = row.time_micro)
    (hstart : r.start_time = row.start_time.value) (hend : r.end_time = row.end_time.value)
    (hmilli : r.start_time_milli = row.start_time_milli.value) : r.line format = row.text := by
  unfold Record.line Parsers.TomcatLogs.AccessRow.text Parsers.TomcatLogs.AccessRow.tokens
  simp only [hts, hthread, hrequest, hmicro, hstart, hend, hmilli, longText_natCast, joinSp, Parsers.TomcatLogs.idToken, orNull,
    Option.getD_some, List.append_assoc]
  rfl

/-! ## What the listener is for -/

/-- the steps that a thread has taken for the request that it serves, and the records of the requests that it has served -/
structure Progress where
  current : List Tick
  completed : List Record

/-- the record of a request that began at a, ended at b, and was written down at c -/
def record (threadName : Text) (a b c : Tick) : Record :=
  ⟨c.currentTimeMillis, threadName, b.request, a.nanoTime, b.nanoTime, a.currentTimeMillis⟩

/-- eight steps for a request -/
def Progress.tick (threadName : Text) (p : Progress) (x : Tick) : Progress :=
  match p.current with
  | [a, _, _, b, _, c, _] => ⟨[], p.completed ++ [record threadName a b c]⟩
  | current => ⟨current ++ [x], p.completed⟩

/-- the records that a thread has appended: those of its requests, and of the one that it is about to leave -/
def Progress.appended (threadName : Text) (p : Progress) : List Record :=
  match p.current with
  | [a, _, _, b, _, c, _] => p.completed ++ [record threadName a b c]
  | _ => p.completed

/-- the progress of a thread: the events of the others do not count -/
def progress {τ : Type} [DecidableEq τ] (name : τ → Text) (es : List (τ × Tick)) (t : τ) : Progress :=
  ((es.filter fun e => e.1 = t).map Prod.snd).foldl (Progress.tick (name t)) ⟨[], []⟩

/-! ## A thread follows its own steps -/

section Own

variable {τ : Type} [DecidableEq τ] (format : ℤ → Text) (name : τ → Text)

/-- where a thread is after these steps for its request, and what it has left in the tables -/
def At (s : St τ) (t : τ) : List Tick → Prop
  | [] => s.threads t = .outside
  | [a] => s.threads t = .putTime a.nanoTime a.currentTimeMillis
  | [a, _] => s.threads t = .putMilli a.currentTimeMillis ∧ s.ht (name t) = some a.nanoTime
  | [a, _, _] => s.threads t = .serving ∧ s.ht (name t) = some a.nanoTime ∧ s.ht_milli (name t) = some a.currentTimeMillis
  | [a, _, _, b] => s.threads t = .getTime b.nanoTime b.request ∧ s.ht (name t) = some a.nanoTime ∧
      s.ht_milli (name t) = some a.currentTimeMillis
  | [a, _, _, b, _] => s.threads t = .getMilli b.nanoTime b.request (some a.nanoTime) ∧
      s.ht_milli (name t) = some a.currentTimeMillis
  | [a, _, _, b, _, c] => s.threads t = .append (record (name t) a b c)
  | [_, _, _, _, _, _, _] => ∃ outputSB, s.threads t = .leave outputSB
  | _ => False

/-- all requests are in the sample -/
theorem not_skipped (end_time : ℤ) : ¬ skipped end_time := by
  unfold skipped SAMPLING_RATIO
  simp

@[simp] theorem threads_goto (s : St τ) (t u : τ) (p : Point) :
    (s.goto t p).threads u = if u = t then p else s.threads u := by
  simp [St.goto, Function.update_apply]

/-- a step of one thread does not move another, and leaves the entries of other names alone -/
theorem step_of_ne (s : St τ) {t u : τ} (x : Tick) (hu : u ≠ t) : (step format name s (t, x)).threads u = s.threads u := by
  unfold step St.append
  repeat' split
  all_goals simp [hu]

theorem ht_step_of_ne (s : St τ) {t : τ} (x : Tick) {n : Text} (hn : n ≠ name t) :
    (step format name s (t, x)).ht n = s.ht n ∧ (step format name s (t, x)).ht_milli n = s.ht_milli n := by
  unfold step St.append
  repeat' split
  all_goals simp [hn, St.goto]

variable {name} in
theorem at_of_ne (hname : Function.Injective name) {s : St τ} {t u : τ} (x : Tick) (hu : u ≠ t) {current : List Tick}
    (h : At name s u current) : At name (step format name s (t, x)) u current := by
  have hthread := step_of_ne format name s x hu
  obtain ⟨hht, hmilli⟩ := ht_step_of_ne format name s x (hname.ne hu)
  unfold At at h ⊢
  split <;> simp_all

/-- what a step does to the buffer and the log, and to the records that the thread has appended -/
inductive Move (s s' : St τ) (t : τ) (old : List Record) : List Record → Prop
  | quiet (hlogged : s'.logged = s.logged) (hsb : s'.sb = s.sb) (hcount : s'.count = s.count)
      (hbefore : ∀ outputSB, s.threads t ≠ .leave (some outputSB))
      (hafter : ∀ outputSB, s'.threads t ≠ .leave (some outputSB)) : Move s s' t old old
  | appended (r : Record) (hthread : r.threadName = name t) (hbefore : s.threads t = .append r)
      (hs' : s' = s.append format t r) : Move s s' t old (old ++ [r])
  | logged (outputSB : Text) (hbefore : s.threads t = .leave (some outputSB))
      (hs' : s' = { s.goto t .outside with logged := s.logged ++ [outputSB] }) : Move s s' t old old

/-- **A step.** A thread that has left its own times in the tables finds them there. -/
theorem step_move (s : St τ) (t : τ) (x : Tick) (p : Progress) (h : At name s t p.current) :
    Move format name s (step format name s (t, x)) t (p.appended (name t)) ((p.tick (name t) x).appended (name t)) ∧
    At name (step format name s (t, x)) t (p.tick (name t) x).current := by
  obtain ⟨current, completed⟩ := p
  match current, h with
  | [], h =>
    simp only [At] at h
    simp only [step, h]
    exact ⟨.quiet rfl rfl rfl (by simp [h]) (by simp), by simp [Progress.tick, At]⟩
  | [a], h =>
    simp only [At] at h
    simp only [step, h]
    exact ⟨.quiet rfl rfl rfl (by simp [h]) (by simp), by simp [Progress.tick, At, St.goto]⟩
  | [a, _], h =>
    obtain ⟨h, hht⟩ := h
    simp only [step, h]
    exact ⟨.quiet rfl rfl rfl (by simp [h]) (by simp), by simp [Progress.tick, At, St.goto, hht]⟩
  | [a, _, _], h =>
    obtain ⟨h, hht, hmilli⟩ := h
    simp only [step, h, if_neg (not_skipped x.nanoTime)]
    exact ⟨.quiet rfl rfl rfl (by simp [h]) (by simp), by simp [Progress.tick, At, St.goto, hht, hmilli]⟩
  | [a, _, _, b], h =>
    obtain ⟨h, hht, hmilli⟩ := h
    simp only [step, h]
    exact ⟨.quiet rfl rfl rfl (by simp [h]) (by simp), by simp [Progress.tick, At, St.goto, hht, hmilli]⟩
  | [a, _, _, b, _], h =>
    obtain ⟨h, hmilli⟩ := h
    simp only [step, h, hmilli]
    exact ⟨.quiet rfl rfl rfl (by simp [h]) (by simp), by simp [Progress.tick, At, St.goto, record]⟩
  | [a, _, _, b, _, c], h =>
    simp only [At] at h
    simp only [step, h]
    refine ⟨.appended (record (name t) a b c) rfl h rfl, ?_⟩
    simp only [Progress.tick, At, List.cons_append, List.nil_append, St.append]
    split <;> simp
  | [a, _, _, b, _, c, _], h =>
    obtain ⟨outputSB, h⟩ := h
    cases outputSB with
    | none =>
      simp only [step, h]
      exact ⟨.quiet rfl rfl rfl (by simp [h]) (by simp), by simp [Progress.tick, At]⟩
    | some outputSB =>
      simp only [step, h]
      exact ⟨.logged outputSB h rfl, by simp [Progress.tick, At]⟩

end Own

/-! ## Records are neither lost nor duplicated -/

section Conserved

variable {τ : Type} [DecidableEq τ] (format : ℤ → Text) (name : τ → Text)

/-- the text of records -/
def text (rs : List Record) : Text := rs.flatMap (Record.text format)

variable {format} in
theorem text_eq_nil {rs : List Record} : text format rs = [] ↔ rs = [] := by
  cases rs with
  | nil => simp [text]
  | cons r rs => simp [text, Record.text]

/-- the batches that have been logged, those that a thread is about to log, and the records in the buffer make up what the
threads have appended -/
structure Conserved (s : St τ) (done : τ → Progress) (batches : List (List Record)) (flights : List (τ × List Record))
    (pending : List Record) : Prop where
  logged : s.logged = batches.map (text format)
  buffer : s.sb = text format pending
  count : s.count = pending.length
  below : pending.length < OUTPUT_FREQUENCY
  batch : ∀ b ∈ batches, b.length = OUTPUT_FREQUENCY
  flight : ∀ f ∈ flights, f.2.length = OUTPUT_FREQUENCY
  nodup : (flights.map Prod.fst).Nodup
  leaving : ∀ t outputSB, s.threads t = .leave (some outputSB) ↔ ∃ b, (t, b) ∈ flights ∧ outputSB = text format b
  known : ∀ r ∈ batches.flatten ++ (flights.map Prod.snd).flatten ++ pending, ∃ t, r.threadName = name t
  once : ∀ t, ((batches.flatten ++ (flights.map Prod.snd).flatten ++ pending).filter fun r => r.threadName = name t).Perm
    ((done t).appended (name t))

variable {format name} {s s' : St τ} {done done' : τ → Progress} {t : τ} {batches : List (List Record)}
  {flights : List (τ × List Record)} {pending : List Record}

theorem conserved_quiet (h : Conserved format name s done batches flights pending) (hlogged : s'.logged = s.logged)
    (hsb : s'.sb = s.sb) (hcount : s'.count = s.count) (hothers : ∀ u, u ≠ t → s'.threads u = s.threads u)
    (hbefore : ∀ outputSB, s.threads t ≠ .leave (some outputSB)) (hafter : ∀ outputSB, s'.threads t ≠ .leave (some outputSB))
    (hdone : ∀ u, (done' u).appended (name u) = (done u).appended (name u)) :
    Conserved format name s' done' batches flights pending where
  logged := hlogged.trans h.logged
  buffer := hsb.trans h.buffer
  count := hcount.trans h.count
  below := h.below
  batch := h.batch
  flight := h.flight
  nodup := h.nodup
  leaving := by
    intro u outputSB
    rw [← h.leaving]
    by_cases hu : u = t
    · subst hu
      exact iff_of_false (hafter _) (hbefore _)
    · rw [hothers u hu]
  known := h.known
  once := fun u => by
    rw [hdone]
    exact h.once u

/-- a record of a thread comes in among the records -/
theorem once_snoc (hname : Function.Injective name) {all all' : List Record} {r : Record} (hr : r.threadName = name t)
    (hall : all'.Perm (all ++ [r]))
    (hsame : ∀ u, u ≠ t → (done' u).appended (name u) = (done u).appended (name u))
    (hdone : (done' t).appended (name t) = (done t).appended (name t) ++ [r])
    (h : ∀ u, (all.filter fun r => r.threadName = name u).Perm ((done u).appended (name u))) (u : τ) :
    (all'.filter fun r => r.threadName = name u).Perm ((done' u).appended (name u)) := by
  refine (hall.filter _).trans ?_
  rw [List.filter_append]
  by_cases hu : u = t
  · subst hu
    rw [hdone]
    simpa [hr] using (h u).append_right [r]
  · have hne : r.threadName ≠ name u := by
      rw [hr]
      exact hname.ne (Ne.symm hu)
    rw [hsame u hu]
    simpa [hne] using h u

theorem conserved_appended (hname : Function.Injective name) (h : Conserved format name s done batches flights pending)
    {r : Record} (hr : r.threadName = name t) (hbefore : s.threads t = .append r)
    (hsame : ∀ u, u ≠ t → (done' u).appended (name u) = (done u).appended (name u))
    (hdone : (done' t).appended (name t) = (done t).appended (name t) ++ [r]) :
    ∃ flights pending, Conserved format name (s.append format t r) done' batches flights pending := by
  have htext : s.sb ++ r.text format = text format (pending ++ [r]) := by
    rw [h.buffer]
    simp [text]
  have hnot : ∀ b, (t, b) ∉ flights := by
    intro b hb
    have hleave := (h.leaving t (text format b)).2 ⟨b, hb, rfl⟩
    rw [hbefore] at hleave
    cases hleave
  have hknown : ∀ {all' : List Record},
      all'.Perm (batches.flatten ++ (flights.map Prod.snd).flatten ++ pending ++ [r]) → ∀ r' ∈ all', ∃ u, r'.threadName = name u := by
    intro all' hall r' hr'
    rcases List.mem_append.1 (hall.mem_iff.1 hr') with hr' | hr'
    · exact h.known r' hr'
    · rw [List.mem_singleton.1 hr']
      exact ⟨t, hr⟩
  unfold St.append
  split
  · next hfull =>
    -- the twentieth record: the buffer is in flight
    have hlength : (pending ++ [r]).length = OUTPUT_FREQUENCY := by
      rw [h.count] at hfull
      rw [List.length_append, List.length_singleton]
      exact_mod_cast hfull
    have hall : (batches.flatten ++ (((t, pending ++ [r]) :: flights).map Prod.snd).flatten ++ []).Perm
        (batches.flatten ++ (flights.map Prod.snd).flatten ++ pending ++ [r]) := by
      rw [List.map_cons, List.flatten_cons, List.append_nil, List.append_assoc _ pending, List.append_assoc batches.flatten]
      exact List.perm_append_comm.append_left _
    refine ⟨(t, pending ++ [r]) :: flights, [], ⟨h.logged, rfl, rfl, by decide, h.batch, ?_, ?_, ?_, hknown hall,
      once_snoc hname hr hall hsame hdone h.once⟩⟩
    · intro f hf
      rcases List.mem_cons.1 hf with rfl | hf
      · exact hlength
      · exact h.flight f hf
    · rw [List.map_cons, List.nodup_cons]
      refine ⟨fun hmem => ?_, h.nodup⟩
      obtain ⟨f, hf, rfl⟩ := List.mem_map.1 hmem
      exact hnot f.2 hf
    · intro u outputSB
      simp only [threads_goto, htext]
      by_cases hu : u = t
      · subst hu
        simp [hnot, eq_comm]
      · simp [hu, h.leaving]
  · next hfull =>
    have hlength : (pending ++ [r]).length < OUTPUT_FREQUENCY := by
      have hbelow := h.below
      rw [h.count] at hfull
      rw [List.length_append, List.length_singleton]
      have hne : pending.length + 1 ≠ OUTPUT_FREQUENCY := by exact_mod_cast hfull
      omega
    have hall : (batches.flatten ++ (flights.map Prod.snd).flatten ++ (pending ++ [r])).Perm
        (batches.flatten ++ (flights.map Prod.snd).flatten ++ pending ++ [r]) := by
      rw [List.append_assoc _ pending]
    refine ⟨flights, pending ++ [r], ⟨h.logged, htext, ?_, hlength, h.batch, h.flight, h.nodup, ?_, hknown hall,
      once_snoc hname hr hall hsame hdone h.once⟩⟩
    · rw [List.length_append, List.length_singleton, h.count]
      push_cast
      rfl
    · intro u outputSB
      rw [← h.leaving]
      simp only [threads_goto]
      by_cases hu : u = t
      · subst hu
        simp [hbefore]
      · simp [hu]

theorem conserved_logged (h : Conserved format name s done batches flights pending) {outputSB : Text}
    (hbefore : s.threads t = .leave (some outputSB))
    (hdone : ∀ u, (done' u).appended (name u) = (done u).appended (name u)) :
    ∃ batches flights, Conserved format name { s.goto t .outside with logged := s.logged ++ [outputSB] } done' batches flights
      pending := by
  obtain ⟨b, hb, rfl⟩ := (h.leaving t outputSB).1 hbefore
  obtain ⟨as, bs, rfl⟩ := List.append_of_mem hb
  have hall : ((batches ++ [b]).flatten ++ ((as ++ bs).map Prod.snd).flatten ++ pending).Perm
      (batches.flatten ++ ((as ++ (t, b) :: bs).map Prod.snd).flatten ++ pending) := by
    refine List.Perm.append_right _ ?_
    simp only [List.flatten_append, List.map_append, List.map_cons, List.flatten_cons, List.append_assoc, List.flatten_nil,
      List.append_nil]
    refine List.Perm.append_left _ ?_
    rw [← List.append_assoc, ← List.append_assoc]
    exact List.perm_append_comm.append_right _
  have hkeys : t ∉ (as ++ bs).map Prod.fst ∧ ((as ++ bs).map Prod.fst).Nodup := by
    have hnodup := h.nodup
    rw [List.map_append, List.map_cons, List.nodup_middle, List.nodup_cons] at hnodup
    rwa [List.map_append]
  refine ⟨batches ++ [b], as ++ bs, ⟨?_, h.buffer, h.count, h.below, ?_, ?_, hkeys.2, ?_, ?_, ?_⟩⟩
  · simp [h.logged]
  · intro b' hb'
    rcases List.mem_append.1 hb' with hb' | hb'
    · exact h.batch b' hb'
    · rw [List.mem_singleton.1 hb']
      exact h.flight (t, b) hb
  · intro f hf
    refine h.flight f ?_
    rcases List.mem_append.1 hf with hf | hf
    · exact List.mem_append_left _ hf
    · exact List.mem_append_right _ (List.mem_cons_of_mem _ hf)
  · intro u out
    simp only [threads_goto]
    by_cases hu : u = t
    · subst hu
      have hnone : ∀ b', (u, b') ∉ as ++ bs := fun b' hb' => hkeys.1 (List.mem_map.2 ⟨(u, b'), hb', rfl⟩)
      simp [hnone]
    · rw [if_neg hu, h.leaving]
      simp [hu]
  · intro r hr
    exact h.known r (hall.mem_iff.1 hr)
  · intro u
    rw [hdone]
    exact (hall.filter _).trans (h.once u)

theorem conserved_step (hname : Function.Injective name) (h : Conserved format name s done batches flights pending) (x : Tick)
    (hat : At name s t (done t).current) (hsame : ∀ u, u ≠ t → done' u = done u)
    (hdone : done' t = (done t).tick (name t) x) :
    ∃ batches flights pending, Conserved format name (step format name s (t, x)) done' batches flights pending := by
  have hmove := (step_move format name s t x (done t) hat).1
  rw [← hdone] at hmove
  have hothers : ∀ u, u ≠ t → (done' u).appended (name u) = (done u).appended (name u) := by
    intro u hu
    rw [hsame u hu]
  have hall : (done' t).appended (name t) = (done t).appended (name t) →
      ∀ u, (done' u).appended (name u) = (done u).appended (name u) := by
    intro ht u
    by_cases hu : u = t
    · subst hu
      exact ht
    · exact hothers u hu
  generalize hnew : (done' t).appended (name t) = new at hmove
  cases hmove with
  | quiet hlogged hsb hcount hbefore hafter =>
    exact ⟨batches, flights, pending, conserved_quiet h hlogged hsb hcount (fun u hu => step_of_ne format name s x hu) hbefore
      hafter (hall hnew)⟩
  | appended r hr hbefore hs' =>
    rw [hs']
    exact ⟨batches, conserved_appended hname h hr hbefore hothers hnew⟩
  | logged outputSB hbefore hs' =>
    rw [hs']
    obtain ⟨batches', flights', h'⟩ := conserved_logged h hbefore (hall hnew)
    exact ⟨batches', flights', pending, h'⟩

variable (name) in
theorem progress_snoc (es : List (τ × Tick)) (t : τ) (x : Tick) :
    progress name (es ++ [(t, x)]) t = (progress name es t).tick (name t) x ∧
    ∀ u, u ≠ t → progress name (es ++ [(t, x)]) u = progress name es u := by
  unfold progress
  refine ⟨by simp, fun u hu => ?_⟩
  have hne : ¬ t = u := fun h => hu h.symm
  simp [hne]

/-- every thread is where its own steps have led it, and the records are conserved -/
theorem conserved_run (format : ℤ → Text) (hname : Function.Injective name) (es : List (τ × Tick)) :
    (∀ t, At name (after (step format name) start es) t (progress name es t).current) ∧
    ∃ batches flights pending, Conserved format name (after (step format name) start es) (progress name es) batches flights
      pending := by
  induction es using List.reverseRecOn with
  | nil =>
    refine ⟨fun t => rfl, [], [], [], ⟨rfl, rfl, rfl, by decide, by simp, by simp, by simp, ?_, by simp, ?_⟩⟩
    · intro t outputSB
      simp [after, start]
    · intro t
      simp [progress, Progress.appended]
  | append_singleton es e ih =>
    obtain ⟨t, x⟩ := e
    obtain ⟨hat, batches, flights, pending, h⟩ := ih
    obtain ⟨hown, hsame⟩ := progress_snoc name es t x
    have hstep : after (step format name) start (es ++ [(t, x)]) =
        step format name (after (step format name) start es) (t, x) := by
      simp [after]
    rw [hstep]
    refine ⟨fun u => ?_, conserved_step hname h x (hat t) hsame hown⟩
    by_cases hu : u = t
    · subst hu
      rw [hown]
      exact (step_move format name _ u x _ (hat u)).2
    · rw [hsame u hu]
      exact at_of_ne format hname x hu (hat u)

/-- **Records are neither lost nor duplicated.** Take any interleaving of threads with different names. The batches that have
been logged hold twenty records each, and so do the batches that a thread has taken away and not logged yet; the counter is the
number of records in the buffer. For every thread, the records under its name in all these are those of the requests that it
has served, and of the one that it is about to leave, each with the start and end times of its own steps. When no thread is
about to log, the logged batches and the buffer have them all. -/
theorem records_conserved (format : ℤ → Text) (name : τ → Text) (hname : Function.Injective name) (es : List (τ × Tick)) :
    ∃ batches flights pending,
      Conserved format name (after (step format name) start es) (progress name es) batches flights pending ∧
      ((∀ t outputSB, (after (step format name) start es).threads t ≠ .leave (some outputSB)) → flights = []) := by
  obtain ⟨batches, flights, pending, h⟩ := (conserved_run format hname es).2
  refine ⟨batches, flights, pending, h, fun hnone => ?_⟩
  refine List.eq_nil_iff_forall_not_mem.2 fun f hf => ?_
  exact hnone f.1 (text format f.2) ((h.leaving f.1 _).2 ⟨f.2, hf, rfl⟩)

end Conserved

/-- two threads of Tomcat -/
def processor : Bool → Text
  | false => "http-8080-Processor1".toList
  | true => "http-8080-Processor2".toList

/-- the first millisecond of 1970, in Greenwich -/
def epoch : ℤ → Text := fun _ => "1970/01/01 00:00:00.000".toList

/-- two requests side by side -/
def sideBySide : List (Bool × Tick) :=
  (List.replicate 8 [(false, ⟨0, 5, none⟩), (true, ⟨0, 7, none⟩)]).flatten

theorem side_by_side_conserved :
    ∃ batches flights pending,
      Conserved epoch processor (after (step epoch processor) start sideBySide) (progress processor sideBySide) batches flights
        pending ∧
      ((∀ t outputSB, (after (step epoch processor) start sideBySide).threads t ≠ .leave (some outputSB)) → flights = []) :=
  records_conserved epoch processor (by decide) sideBySide

/-- one thread serves nineteen requests, and has taken the buffer away at the end of the twentieth -/
def twentieth : List (Bool × Tick) := List.replicate 159 (false, ⟨0, 5, none⟩)

/-- the records of nineteen requests that are over are neither logged nor in the buffer -/
theorem batch_in_flight :
    (progress processor twentieth false).completed.length = 19 ∧
    ¬ ∃ (batches : List (List Record)) (pending : List Record),
      (after (step epoch processor) start twentieth).logged = batches.map (text epoch) ∧
      (after (step epoch processor) start twentieth).sb = text epoch pending ∧
      ∀ t, ∀ r ∈ (progress processor twentieth t).completed, r ∈ batches.flatten ++ pending := by
  have hlogged : (after (step epoch processor) start twentieth).logged = [] := by decide +kernel
  have hsb : (after (step epoch processor) start twentieth).sb = [] := by decide +kernel
  have hdone : record (processor false) ⟨0, 5, none⟩ ⟨0, 5, none⟩ ⟨0, 5, none⟩ ∈
      (progress processor twentieth false).completed := by decide +kernel
  refine ⟨by decide +kernel, ?_⟩
  rintro ⟨batches, pending, h1, h2, h3⟩
  have hbatches : batches = [] := by
    rw [hlogged] at h1
    exact List.map_eq_nil_iff.1 h1.symm
  have hpending : pending = [] := by
    rw [hsb] at h2
    exact text_eq_nil.1 h2.symm
  have hmem := h3 false _ hdone
  simp [hbatches, hpending] at hmem

end Rubbos.Servlets.ReqListener
