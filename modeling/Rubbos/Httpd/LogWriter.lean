/-
The writers of the access log (`ap_default_log_writer` and `ap_buffered_log_writer` of mod_log_config.c).

The child processes of the server share the log file, which is open for appending. With BufferedLogs every child collects its
records in an array, under a mutex of its threads, and writes the array to the file when the next record does not fit, and when
it ends. A call makes up to two writes to the file, and other children may write between them. What a write leaves of its bytes
is up to the system.

Premises of the runs (`Legal`): a thread enters while no other one of its child is inside, a child has no threads when it ends, and
every write is complete. The lines are read back by a loop whose buffer is longer than each of them.

- `leave_kept`, `enter_kept`: what the two halves of a call do to the file and the buffer.
- `records_whole`: over any interleaving of the children no copy leaves the array, and every record is in the file or in a buffer,
  once, whole and in the order of its child; so the lines that a parser reads are the records.
- `buffered_perm`: when all children have ended, the file has the records of a server without BufferedLogs, in another order.
Witnesses `two_children` and `two_ended`: a record that flushes the buffer of one child while another writes.
-/
import Rubbos.Core.CLib
import Rubbos.Core.Run

namespace Rubbos.Httpd.LogWriter

open Rubbos.Core CLib

variable {n : ℕ}

/-! ## Model -/

/-- what C leaves undefined -/
inductive Undefined where
  | outOfBounds
  | uninitialized
deriving DecidableEq, Repr

/-- `memcpy(&b[i], t, strlen(t))` -/
def memcpy (b : CArray n) (i : ℕ) (t : Text) : Except Undefined (CArray n) :=
  if h : i + t.length ≤ n then
    .ok ⟨b.bytes.take i ++ t.map some ++ b.bytes.drop (i + t.length), by
      have := b.size
      simp only [List.length_append, List.length_map, List.length_take, List.length_drop]
      omega⟩
  else .error .outOfBounds

/-- `for (i = 0, s = &b[i]; i < nelts; ++i) { memcpy(s, strs[i], strl[i]); s += strl[i]; }` -/
def copyAll (b : CArray n) (i : ℕ) : (strs : List Text) → Except Undefined (CArray n)
  | [] => .ok b
  | str :: strs => do
    let b ← memcpy b i str
    copyAll b (i + str.length) strs

/-- `buffered_log`; inside is the record of the thread that holds the mutex -/
structure BufferedLog (n : ℕ) where
  outcnt : ℕ
  outbuf : CArray n
  inside : Option (List Text)

/-- `apr_file_write` to a file that is open for appending; the system writes at most k bytes -/
def aprFileWrite (file str : Text) (k : ℕ) : Text := file ++ str.take k

/-- `flush_log` -/
def flushLog (file : Text) (buf : BufferedLog n) (k : ℕ) : Except Undefined (Text × BufferedLog n) :=
  if buf.outcnt = 0 then .ok (file, buf)
  else
    match peek buf.outcnt buf.outbuf with
    | none => .error .uninitialized
    | some str => .ok (aprFileWrite file str k, { buf with outcnt := 0 })

/-- the len of a record -/
def lenOf (strs : List Text) : ℕ := (strs.map List.length).sum

/-- `ap_buffered_log_writer` up to the first write -/
def enter (file : Text) (buf : BufferedLog n) (strs : List Text) (k : ℕ) : Except Undefined (Text × BufferedLog n) := do
  let (file, buf) ← if n < lenOf strs + buf.outcnt then flushLog file buf k else .ok (file, buf)
  return (file, { buf with inside := some strs })

/-- the rest of `ap_buffered_log_writer`: a large record is written without the buffer -/
def leave (file : Text) (buf : BufferedLog n) (strs : List Text) (k : ℕ) : Except Undefined (Text × BufferedLog n) :=
  if n ≤ lenOf strs then .ok (aprFileWrite file strs.flatten k, { buf with inside := none })
  else do
    let outbuf ← copyAll buf.outbuf buf.outcnt strs
    return (file, { outbuf, outcnt := buf.outcnt + lenOf strs, inside := none })

/-- `ap_default_log_writer` -/
def apDefaultLogWriter (file : Text) (strs : List Text) (k : ℕ) : Text := aprFileWrite file strs.flatten k

variable {P : Type}

/-- the file and the memory of the children P -/
structure St (P : Type) (n : ℕ) where
  file : Text
  logs : P → BufferedLog n

inductive Event (P : Type) where
  /-- a thread of p gets the mutex, to log a record -/
  | enter (p : P) (strs : List Text) (k : ℕ)
  | leave (p : P) (k : ℕ)
  /-- `flush_all_logs`, when p ends -/
  | flush (p : P) (k : ℕ)

variable [DecidableEq P]

def St.put (s : St P n) (p : P) (r : Text × BufferedLog n) : St P n := ⟨r.1, Function.update s.logs p r.2⟩

def step (s : St P n) : Event P → Except Undefined (St P n × Unit)
  | .enter p strs k => do return (s.put p (← enter s.file (s.logs p) strs k), ())
  | .leave p k =>
    match (s.logs p).inside with
    | none => .ok (s, ())
    | some strs => do return (s.put p (← leave s.file (s.logs p) strs k), ())
  | .flush p k => do return (s.put p (← flushLog s.file (s.logs p) k), ())

/-- children that have logged nothing, and an empty file -/
def start : St P n := ⟨[], fun _ => ⟨0, uninit n, none⟩⟩

/-- one thread of a child is inside, a child has no threads when it ends, and the system writes all bytes -/
def Legal (s : St P n) : Event P → Prop
  | .enter p _ k => (s.logs p).inside = none ∧ n ≤ k
  | .leave p k => ∃ strs ∈ (s.logs p).inside, lenOf strs ≤ k
  | .flush p k => (s.logs p).inside = none ∧ n ≤ k

instance (s : St P n) (e : Event P) : Decidable (Legal s e) :=
  match e with
  | .enter _ _ _ => inferInstanceAs (Decidable (_ ∧ _))
  | .leave _ _ => inferInstanceAs (Decidable (∃ _ ∈ _, _))
  | .flush _ _ => inferInstanceAs (Decidable (_ ∧ _))

/-- the records that p logs -/
def loggedBy (p : P) : List (Event P) → List Text
  | [] => []
  | .enter q strs _ :: es => if q = p then strs.flatten :: loggedBy p es else loggedBy p es
  | _ :: es => loggedBy p es

/-! ## The buffer -/

theorem length_flatten_eq (strs : List Text) : strs.flatten.length = lenOf strs := List.length_flatten

theorem firstBytes_iff {k : ℕ} {bs : List (Option Char)} {t : Text} :
    firstBytes k bs = some t ↔ bs.take k = t.map some ∧ t.length = k := by
  induction k generalizing bs t with
  | zero => cases t <;> simp [firstBytes]
  | succ k ih =>
    rcases bs with _ | ⟨_ | c, bs⟩
    · cases t <;> simp [firstBytes]
    · cases t <;> simp [firstBytes]
    · cases t with
      | nil => simp [firstBytes]
      | cons d t =>
        simp only [firstBytes, Option.map_eq_some_iff, ih, List.take_succ_cons, List.map_cons, List.cons.injEq,
          List.length_cons, Nat.add_right_cancel_iff, Option.some.injEq]
        constructor
        · rintro ⟨t', ⟨htake, hlen⟩, rfl, rfl⟩
          exact ⟨⟨rfl, htake⟩, hlen⟩
        · rintro ⟨⟨rfl, htake⟩, hlen⟩
          exact ⟨t, ⟨htake, hlen⟩, rfl, rfl⟩

/-- a copy behind the bytes that are there -/
theorem memcpy_peek {b : CArray n} {t u : Text} (h : peek t.length b = some t) (hfit : t.length + u.length ≤ n) :
    ∃ b', memcpy b t.length u = .ok b' ∧ peek (t ++ u).length b' = some (t ++ u) := by
  refine ⟨_, dif_pos hfit, ?_⟩
  have htake := (firstBytes_iff.1 h).1
  rw [peek, firstBytes_iff]
  refine ⟨?_, rfl⟩
  change (b.bytes.take t.length ++ u.map some ++ b.bytes.drop (t.length + u.length)).take _ = _
  rw [htake, ← List.map_append, List.take_left' (by simp)]

theorem copyAll_peek {b : CArray n} {t : Text} (h : peek t.length b = some t) {strs : List Text}
    (hfit : t.length + lenOf strs ≤ n) :
    ∃ b', copyAll b t.length strs = .ok b' ∧ peek (t ++ strs.flatten).length b' = some (t ++ strs.flatten) := by
  induction strs generalizing b t with
  | nil => exact ⟨b, rfl, by simpa using h⟩
  | cons str strs ih =>
    have hsum : lenOf (str :: strs) = str.length + lenOf strs := rfl
    obtain ⟨b₁, hb₁, hpeek₁⟩ := memcpy_peek h (u := str) (by omega)
    obtain ⟨b₂, hb₂, hpeek₂⟩ := ih hpeek₁ (by rw [List.length_append]; omega)
    refine ⟨b₂, ?_, by rwa [List.append_assoc] at hpeek₂⟩
    rw [List.length_append] at hb₂
    rw [copyAll, hb₁]
    exact hb₂

/-- the buffer has these records, and a record that is inside fits behind them or goes past the buffer -/
structure Keeps (buf : BufferedLog n) (rs : List Text) : Prop where
  outcnt_eq : buf.outcnt = rs.flatten.length
  outcnt_le : buf.outcnt ≤ n
  peek_eq : peek rs.flatten.length buf.outbuf = some rs.flatten
  room : ∀ strs ∈ buf.inside, lenOf strs + buf.outcnt ≤ n ∨ buf.outcnt = 0

/-- the record that is inside -/
def insideOf (buf : BufferedLog n) : List Text := buf.inside.toList.map List.flatten

variable {buf : BufferedLog n} {rs : List Text} {strs : List Text} {file : Text} {k : ℕ}

theorem flushLog_kept (file : Text) (h : Keeps buf rs) (hk : n ≤ k) : ∃ buf', flushLog file buf k = .ok (file ++ rs.flatten, buf') ∧
    buf'.outcnt = 0 ∧ buf'.inside = buf.inside := by
  have hcount := h.outcnt_eq
  have hle := h.outcnt_le
  unfold flushLog
  by_cases hzero : buf.outcnt = 0
  · have hnil : rs.flatten = [] := List.eq_nil_of_length_eq_zero (by omega)
    rw [if_pos hzero, hnil, List.append_nil]
    exact ⟨buf, rfl, hzero, rfl⟩
  · rw [if_neg hzero, hcount, h.peek_eq]
    refine ⟨{ buf with outcnt := 0 }, ?_, rfl, rfl⟩
    simp only [aprFileWrite]
    rw [List.take_of_length_le (by omega)]

theorem keeps_nil (hzero : buf.outcnt = 0) : Keeps buf [] := by
  refine ⟨hzero, by omega, ?_, fun _ _ => .inr hzero⟩
  rfl

/-- the first half of a call: the records of the buffer stay, or they go to the file -/
theorem enter_kept (file : Text) (strs : List Text) (h : Keeps buf rs) (hk : n ≤ k) : ∃ ws rs' buf',
    enter file buf strs k = .ok (file ++ ws.flatten, buf') ∧ Keeps buf' rs' ∧ rs = ws ++ rs' ∧ buf'.inside = some strs := by
  unfold enter
  by_cases hfull : n < lenOf strs + buf.outcnt
  · obtain ⟨buf', hflush, hzero, -⟩ := flushLog_kept file h hk
    rw [if_pos hfull, hflush]
    refine ⟨rs, [], { buf' with inside := some strs }, rfl, ?_, by simp, rfl⟩
    exact keeps_nil hzero
  · rw [if_neg hfull]
    refine ⟨[], rs, { buf with inside := some strs }, by simp [bind, Except.bind, pure, Except.pure], ?_, rfl, rfl⟩
    refine ⟨h.outcnt_eq, h.outcnt_le, h.peek_eq, ?_⟩
    rintro strs' ⟨⟩
    exact .inl (by simp only; omega)

/-- the second half: the record goes behind those of the buffer -/
theorem leave_kept (file : Text) (h : Keeps buf rs) (hinside : buf.inside = some strs) (hk : lenOf strs ≤ k) : ∃ ws rs' buf',
    leave file buf strs k = .ok (file ++ ws.flatten, buf') ∧ Keeps buf' rs' ∧ rs ++ [strs.flatten] = ws ++ rs' ∧
      buf'.inside = none := by
  have hroom := h.room strs hinside
  have hcount := h.outcnt_eq
  unfold leave
  by_cases hlarge : n ≤ lenOf strs
  · -- the buffer is empty, so the record is the next one
    have hzero : buf.outcnt = 0 := by omega
    have hnil : rs.flatten = [] := List.eq_nil_of_length_eq_zero (by omega)
    rw [if_pos hlarge]
    refine ⟨rs ++ [strs.flatten], [], { buf with inside := none }, ?_, keeps_nil hzero, by simp, rfl⟩
    rw [aprFileWrite, List.take_of_length_le (by rw [length_flatten_eq]; exact hk)]
    simp [hnil]
  · have hfit : rs.flatten.length + lenOf strs ≤ n := by omega
    obtain ⟨outbuf, hcopy, hpeek⟩ := copyAll_peek h.peek_eq hfit
    rw [if_neg hlarge, hcount, hcopy]
    refine ⟨[], rs ++ [strs.flatten], { outbuf, outcnt := rs.flatten.length + lenOf strs, inside := none },
      by simp [bind, Except.bind, pure, Except.pure], ?_, rfl, rfl⟩
    have hflat : (rs ++ [strs.flatten]).flatten = rs.flatten ++ strs.flatten := by simp
    refine ⟨?_, hfit, by rwa [hflat], by simp⟩
    rw [hflat, List.length_append, length_flatten_eq strs]

/-! ## Runs -/

/-- what the file and the buffers are, in records: those of the file with the children that wrote them -/
structure Accounts (s : St P n) (written : List (P × Text)) (kept : P → List Text) : Prop where
  file_eq : s.file = (written.map Prod.snd).flatten
  keeps : ∀ p, Keeps (s.logs p) (kept p)

/-- the records of p -/
def writtenBy (p : P) (written : List (P × Text)) : List Text := (written.filter (·.1 = p)).map Prod.snd

theorem writtenBy_append (p : P) (ws ws' : List (P × Text)) :
    writtenBy p (ws ++ ws') = writtenBy p ws ++ writtenBy p ws' := by
  simp [writtenBy]

theorem writtenBy_of (p q : P) (ws : List Text) : writtenBy p (ws.map (q, ·)) = if q = p then ws else [] := by
  unfold writtenBy
  rw [List.filter_map, List.map_map]
  split_ifs with h
  · simp [Function.comp_def, h]
  · simp [Function.comp_def, h]

variable {s s' : St P n} {written : List (P × Text)} {kept : P → List Text}

/-- a child that gets on: its records move to the file, in their order -/
theorem accounts_put (h : Accounts s written kept) {p : P} {ws rs' : List Text} {buf' : BufferedLog n}
    (hkeeps : Keeps buf' rs') : Accounts (s.put p (s.file ++ ws.flatten, buf')) (written ++ ws.map (p, ·))
      (Function.update kept p rs') := by
  refine ⟨?_, fun q => ?_⟩
  · simp only [St.put, h.file_eq, List.map_append, List.map_map, List.flatten_append, Function.comp_def, List.map_id']
  · by_cases hq : q = p
    · subst hq
      simpa [St.put] using hkeeps
    · simpa [St.put, hq] using h.keeps q

/-- the other children and their records stay -/
theorem records_put {p : P} {ws rs' : List Text} {f : Text} {buf' : BufferedLog n} {e : Event P}
    (hp : kept p ++ insideOf (s.logs p) ++ loggedBy p [e] = ws ++ rs' ++ insideOf buf')
    (hother : ∀ q, q ≠ p → loggedBy q [e] = []) (q : P) :
    kept q ++ insideOf (s.logs q) ++ loggedBy q [e] =
      writtenBy q (ws.map (p, ·)) ++ Function.update kept p rs' q ++ insideOf ((s.put p (f, buf')).logs q) := by
  rw [writtenBy_of]
  by_cases hq : q = p
  · subst hq
    rw [hp, if_pos rfl]
    simp [St.put]
  · rw [hother q hq, if_neg fun h => hq h.symm]
    simp [St.put, hq]

/-- **One event**: nothing is undefined, and the records go on in their order. -/
theorem step_accounts (h : Accounts s written kept) {e : Event P} (he : Legal s e) :
    ∃ s' ws kept', step s e = .ok (s', ()) ∧ Accounts s' (written ++ ws) kept' ∧
      ∀ p, kept p ++ insideOf (s.logs p) ++ loggedBy p [e] = writtenBy p ws ++ kept' p ++ insideOf (s'.logs p) := by
  cases e with
  | enter p strs k =>
    obtain ⟨hinside, hk⟩ := he
    obtain ⟨ws, rs', buf', henter, hkeeps, hrs, hinside'⟩ := enter_kept s.file strs (h.keeps p) hk
    refine ⟨_, ws.map (p, ·), Function.update kept p rs', by rw [step, henter]; rfl, accounts_put h hkeeps,
      records_put ?_ fun q hq => ?_⟩
    · simp [insideOf, hinside, hinside', hrs, loggedBy]
    · simp [loggedBy, Ne.symm hq]
  | leave p k =>
    obtain ⟨strs, hinside, hk⟩ := he
    obtain ⟨ws, rs', buf', hleave, hkeeps, hrs, hinside'⟩ := leave_kept s.file (h.keeps p) hinside hk
    refine ⟨_, ws.map (p, ·), Function.update kept p rs', ?_, accounts_put h hkeeps, records_put ?_ fun q _ => rfl⟩
    · simp only [step, Option.mem_def.1 hinside, hleave]
      rfl
    · have hin : insideOf (s.logs p) = [strs.flatten] := by simp [insideOf, Option.mem_def.1 hinside]
      have hin' : insideOf buf' = [] := by simp [insideOf, hinside']
      rw [hin, hin', hrs]
      rfl
  | flush p k =>
    obtain ⟨hinside, hk⟩ := he
    obtain ⟨buf', hflush, hzero, hinside'⟩ := flushLog_kept s.file (h.keeps p) hk
    refine ⟨_, (kept p).map (p, ·), Function.update kept p [], by rw [step, hflush]; rfl,
      accounts_put h (keeps_nil hzero), records_put ?_ fun q _ => rfl⟩
    simp [insideOf, hinside, hinside', loggedBy]

theorem loggedBy_cons (p : P) (e : Event P) (es : List (Event P)) : loggedBy p (e :: es) = loggedBy p [e] ++ loggedBy p es := by
  cases e with
  | enter q strs k =>
    by_cases hq : q = p <;> simp [loggedBy, hq]
  | leave => rfl
  | flush => rfl

theorem run_accounts (h : Accounts s written kept) {es : List (Event P)} (hlegal : LegalRun step Legal s es) :
    ∃ s' os ws kept', run step s es = .ok (s', os) ∧ Accounts s' (written ++ ws) kept' ∧
      ∀ p, kept p ++ insideOf (s.logs p) ++ loggedBy p es = writtenBy p ws ++ kept' p ++ insideOf (s'.logs p) := by
  induction es generalizing s written kept with
  | nil => exact ⟨s, [], [], kept, rfl, by simpa using h, fun p => by simp [loggedBy, writtenBy]⟩
  | cons e es ih =>
    obtain ⟨s₁, ws₁, kept₁, hstep, h₁, hrecords₁⟩ := step_accounts h hlegal.1
    obtain ⟨s₂, os, ws₂, kept₂, hrun, h₂, hrecords₂⟩ := ih h₁ (hlegal.tail hstep)
    refine ⟨s₂, () :: os, ws₁ ++ ws₂, kept₂, by simp only [run, hstep, hrun], by rwa [List.append_assoc] at h₂, fun p => ?_⟩
    rw [loggedBy_cons, writtenBy_append, ← List.append_assoc, hrecords₁ p]
    have hrest := hrecords₂ p
    simp only [List.append_assoc] at hrest ⊢
    rw [hrest]

theorem run_start (n : ℕ) {es : List (Event P)} (hlegal : LegalRun step Legal (start : St P n) es) :
    ∃ (s : St P n) (os : List Unit) (written : List (P × Text)) (kept : P → List Text), run step start es = .ok (s, os) ∧
      Accounts s written kept ∧
        ∀ p, writtenBy p written ++ kept p ++ insideOf (s.logs p) = loggedBy p es := by
  have hstart : Accounts (start : St P n) [] fun _ => [] := ⟨rfl, fun _ => keeps_nil rfl⟩
  obtain ⟨s, os, written, kept, hrun, hs, hrecords⟩ := run_accounts hstart hlegal
  refine ⟨s, os, written, kept, hrun, hs, fun p => ?_⟩
  have hp := hrecords p
  simpa [start, insideOf] using hp.symm

/-- **Records are whole.** Whatever the children do in between, nothing is undefined, the array is never too small, and the file
has the records of every child, without those in its buffer, once, whole and in their order; a parser reads them as its lines. -/
theorem records_whole (n : ℕ) {es : List (Event P)} (hlegal : LegalRun step Legal (start : St P n) es) :
    ∃ (s : St P n) (os : List Unit), run step start es = .ok (s, os) ∧ ∃ written : List (P × Text), s.file = (written.map Prod.snd).flatten ∧
      (∀ size fuel, (∀ r ∈ written, IsLine size r.2) → written.length ≤ fuel →
        readLines size fuel s.file = written.map Prod.snd) ∧
      ∀ p, ∃ kept : List Text, peek (s.logs p).outcnt (s.logs p).outbuf = some kept.flatten ∧ (s.logs p).outcnt ≤ n ∧
        writtenBy p written ++ kept ++ insideOf (s.logs p) = loggedBy p es := by
  obtain ⟨s, os, written, kept, hrun, hs, hrecords⟩ := run_start n hlegal
  refine ⟨s, os, hrun, written, hs.file_eq, fun size fuel hlines hfuel => ?_, fun p => ?_⟩
  · rw [hs.file_eq]
    exact readLines_flatten (List.forall_mem_map.2 hlines) (by simpa using hfuel)
  · have hkeeps := hs.keeps p
    exact ⟨kept p, by rw [hkeeps.outcnt_eq, hkeeps.peek_eq], hkeeps.outcnt_le, hrecords p⟩

/-- one child writes while the other is between flushing its buffer and keeping its record -/
def twoChildren : List (Event Bool) :=
  [.enter false [['a', '\n']] 4, .leave false 2, .enter false [['b', 'c'], ['\n']] 4, .enter true [['d', '\n']] 4, .leave true 2,
    .flush true 4, .leave false 3]

theorem two_children : ∃ (s : St Bool 4) (os : List Unit), run step start twoChildren = .ok (s, os) ∧
    ∃ written : List (Bool × Text), s.file = (written.map Prod.snd).flatten ∧
      (∀ size fuel, (∀ r ∈ written, IsLine size r.2) → written.length ≤ fuel →
        readLines size fuel s.file = written.map Prod.snd) ∧
      ∀ p, ∃ kept : List Text, peek (s.logs p).outcnt (s.logs p).outbuf = some kept.flatten ∧ (s.logs p).outcnt ≤ 4 ∧
        writtenBy p written ++ kept ++ insideOf (s.logs p) = loggedBy p twoChildren :=
  records_whole 4 (by decide)

example : ((run step (start : St Bool 4) twoChildren).toOption.map fun r => r.1.file) =
    some ['a', '\n', 'd', '\n'] := by decide

/-- the records of all children, with their children -/
def logged : List (Event P) → List (P × List Text)
  | [] => []
  | .enter p strs _ :: es => (p, strs) :: logged es
  | _ :: es => logged es

/-- the records that leave a trace in the file -/
def recordsOf (es : List (Event P)) : List Text := ((logged es).map fun r => r.2.flatten).filter fun r => r ≠ []

/-- the file of a server without BufferedLogs, which writes every record at once -/
def unbufferedFile (es : List (Event P)) : Text :=
  (logged es).foldl (fun file r => apDefaultLogWriter file r.2 (lenOf r.2)) []

theorem writtenBy_logged (p : P) (es : List (Event P)) :
    writtenBy p ((logged es).map fun r => (r.1, r.2.flatten)) = loggedBy p es := by
  induction es with
  | nil => rfl
  | cons e es ih =>
    cases e with
    | enter q strs k =>
      by_cases hq : q = p
      · simpa [logged, loggedBy, writtenBy, hq] using ih
      · simpa [logged, loggedBy, writtenBy, hq] using ih
    | leave => exact ih
    | flush => exact ih

omit [DecidableEq P] in
theorem unbufferedFile_eq (es : List (Event P)) : unbufferedFile es = (recordsOf es).flatten := by
  have hfold : ∀ (rs : List (P × List Text)) (file : Text),
      rs.foldl (fun file r => apDefaultLogWriter file r.2 (lenOf r.2)) file = file ++ (rs.map fun r => r.2.flatten).flatten := by
    intro rs
    induction rs with
    | nil => simp
    | cons r rs ih =>
      intro file
      rw [List.foldl_cons, ih, apDefaultLogWriter, aprFileWrite, List.take_of_length_le (by rw [length_flatten_eq])]
      simp
  rw [recordsOf, List.flatten_filter_ne_nil]
  simpa [unbufferedFile] using hfold (logged es) []

/-- records that agree for every child are the same records in another order -/
theorem perm_of_writtenBy {ws ws' : List (P × Text)} (h : ∀ p, writtenBy p ws = writtenBy p ws') : ws.Perm ws' := by
  have hcount : ∀ (ws : List (P × Text)) (r : P × Text), ws.count r = (writtenBy r.1 ws).count r.2 := by
    intro ws r
    induction ws with
    | nil => rfl
    | cons w ws ih =>
      obtain ⟨p, t⟩ := r
      obtain ⟨q, u⟩ := w
      by_cases hq : q = p
      · simp [writtenBy, List.count_cons, hq, ih]
      · simp [writtenBy, hq, ih]
  rw [List.perm_iff_count]
  intro r
  rw [hcount, hcount, h]

theorem writtenBy_filter (p : P) (q : Text → Bool) (ws : List (P × Text)) :
    writtenBy p (ws.filter fun r => q r.2) = (writtenBy p ws).filter q := by
  simp only [writtenBy, List.filter_filter, List.filter_map, Function.comp_def, Bool.and_comm]

/-- **Buffering changes the order only.** When all children have ended, the file has the records that it has without buffers;
an empty record leaves no trace. -/
theorem buffered_perm {es : List (Event P)} (hlegal : LegalRun step Legal (start : St P n) es) {s : St P n} {os : List Unit}
    (hrun : run step start es = .ok (s, os)) (hended : ∀ p, (s.logs p).outcnt = 0 ∧ (s.logs p).inside = none) :
    ∃ rs : List Text, rs.Perm (recordsOf es) ∧ s.file = rs.flatten ∧ unbufferedFile es = (recordsOf es).flatten := by
  obtain ⟨s', os', written, kept, hrun', hs, hrecords⟩ := run_start n hlegal
  obtain ⟨rfl, -⟩ := Prod.mk.inj (Except.ok.inj (hrun.symm.trans hrun'))
  have hfile := hs.file_eq
  have hperm : (written.filter fun r => r.2 ≠ []).Perm
      (((logged es).map fun r => (r.1, r.2.flatten)).filter fun r => r.2 ≠ []) := by
    refine perm_of_writtenBy fun p => ?_
    obtain ⟨hzero, hinside⟩ := hended p
    have hempty : (kept p).filter (fun r => r ≠ []) = [] := by
      have hnil : (kept p).flatten = [] := List.eq_nil_of_length_eq_zero ((hs.keeps p).outcnt_eq.symm.trans hzero)
      rw [List.flatten_eq_nil_iff] at hnil
      rw [List.filter_eq_nil_iff]
      intro r hr
      simp [hnil r hr]
    rw [writtenBy_filter p (fun r => r ≠ []), writtenBy_filter p (fun r => r ≠ []), writtenBy_logged, ← hrecords p, insideOf,
      hinside]
    simp only [List.filter_append, hempty]
    simp
  have hmap : ∀ ws : List (P × Text), (ws.filter fun r => r.2 ≠ []).map Prod.snd = (ws.map Prod.snd).filter fun r => r ≠ [] :=
    fun ws => by rw [List.filter_map]; rfl
  refine ⟨(written.map Prod.snd).filter fun r => r ≠ [], ?_, by rw [hfile, List.flatten_filter_ne_nil], unbufferedFile_eq es⟩
  have h := hperm.map Prod.snd
  rwa [hmap, hmap, List.map_map] at h

/-- the children of `twoChildren`, when they have ended -/
def twoEnded : List (Event Bool) := twoChildren ++ [.flush false 4]

theorem two_ended : ∃ s os, run step (start : St Bool 4) twoEnded = .ok (s, os) ∧
    ∃ rs : List Text, rs.Perm (recordsOf twoEnded) ∧ s.file = rs.flatten ∧ unbufferedFile twoEnded = (recordsOf twoEnded).flatten := by
  have hlegal : LegalRun step Legal (start : St Bool 4) twoEnded := by decide
  have hended : ∀ p, ∀ r ∈ (run step (start : St Bool 4) twoEnded).toOption, (r.1.logs p).outcnt = 0 ∧ (r.1.logs p).inside = none := by
    decide
  obtain ⟨s, os, -, -, hrun, -, -⟩ := run_start 4 hlegal
  exact ⟨s, os, hrun, buffered_perm hlegal hrun fun p => hended p (s, os) (by rw [hrun]; rfl)⟩

end Rubbos.Httpd.LogWriter
