/-
The messages between the web server and Tomcat (jk_msg_buff.c of mod_jk, and `ajp_connection_tcp_get_message`).

A message is put together field by field in a buffer of fixed size, and gets a header with its length. The receiver reads the
header, takes as many bytes into its own buffer, and gets the fields one after the other.

- `append_fits`: fields that fit are appended, and stand in the buffer one after the other.
- `get_encoded`: a field is read back wherever it stands in a buffer.
- `message_round_trip`: a message that is sent is received with the fields it was made of, and nothing of what follows it.
Witness `round_trip_headers`: the beginning of a reply.
-/
import Mathlib.Tactic

namespace Rubbos.Connector

abbrev Bytes := List UInt8

/-! ## Model -/

/-- `jk_msg_buf_t`; maxlen is the size of the buffer -/
structure JkMsgBuf where
  buf : Bytes
  pos : ℕ
  len : ℕ
  len_le : len ≤ buf.length

namespace JkMsgBuf

def maxlen (msg : JkMsgBuf) : ℕ := msg.buf.length

/-- the byte at a position; a byte behind the buffer is anything -/
def byteAt (msg : JkMsgBuf) (i : ℕ) : ℕ := (msg.buf.getD i 0).toNat

theorem length_put {buf bs : Bytes} {len : ℕ} (h : len + bs.length ≤ buf.length) :
    (buf.take len ++ bs ++ buf.drop (len + bs.length)).length = buf.length := by
  simp only [List.length_append, List.length_take, List.length_drop]
  omega

/-- bytes behind the others, if there is room -/
def put (msg : JkMsgBuf) (bs : Bytes) : Option JkMsgBuf :=
  if h : msg.len + bs.length ≤ msg.buf.length then
    some ⟨msg.buf.take msg.len ++ bs ++ msg.buf.drop (msg.len + bs.length), msg.pos, msg.len + bs.length,
      h.trans (length_put h).ge⟩
  else none

end JkMsgBuf

/-- two bytes, the high one first -/
def be16 (val : ℕ) : Bytes := [UInt8.ofNat (val / 256), UInt8.ofNat val]

def be32 (val : ℕ) : Bytes := be16 (val / 65536) ++ be16 val

theorem le_length_reset {maxlen : ℕ} (h : 4 ≤ maxlen) : 4 ≤ (List.replicate maxlen (0 : UInt8)).length := by
  simpa using h

def jkBReset (maxlen : ℕ) (h : 4 ≤ maxlen) : JkMsgBuf := ⟨List.replicate maxlen 0, 4, 4, le_length_reset h⟩

def jkBAppendLong (msg : JkMsgBuf) (val : ℕ) : Option JkMsgBuf := msg.put (be32 val)

def jkBAppendInt (msg : JkMsgBuf) (val : ℕ) : Option JkMsgBuf := msg.put (be16 val)

def jkBAppendByte (msg : JkMsgBuf) (val : UInt8) : Option JkMsgBuf := msg.put [val]

/-- the length is an unsigned short; for NULL the result of `jk_b_append_int` is not looked at -/
def jkBAppendString (msg : JkMsgBuf) : Option Bytes → Option JkMsgBuf
  | none => some ((jkBAppendInt msg 0xFFFF).getD msg)
  | some param =>
    let len := param.length % 65536
    msg.put (be16 len ++ (param ++ [0]).take (len + 1))

def jkBAppendBytes (msg : JkMsgBuf) (param : Bytes) : Option JkMsgBuf := if param = [] then some msg else msg.put param

theorem len_le_end (msg : JkMsgBuf) (protoh : ℕ) :
    msg.len ≤ (be16 protoh ++ be16 (msg.len - 4) ++ msg.buf.drop 4).length := by
  have := msg.len_le
  simp only [be16, List.length_append, List.length_cons, List.length_nil, List.length_drop]
  omega

/-- `jk_b_end` -/
def jkBEnd (msg : JkMsgBuf) (protoh : ℕ) : JkMsgBuf :=
  ⟨be16 protoh ++ be16 (msg.len - 4) ++ msg.buf.drop 4, msg.pos, msg.len, len_le_end msg protoh⟩

/-- the high byte is shifted into the sign of an int -/
def jkBGetLong (msg : JkMsgBuf) : ℕ × JkMsgBuf :=
  if msg.len < msg.pos + 3 then (0xFFFFFFFF, msg)
  else
    let i := msg.byteAt msg.pos * 2 ^ 24 + msg.byteAt (msg.pos + 1) * 2 ^ 16 + msg.byteAt (msg.pos + 2) * 2 ^ 8 +
      msg.byteAt (msg.pos + 3)
    (if i < 2 ^ 31 then i else i + (2 ^ 64 - 2 ^ 32), { msg with pos := msg.pos + 4 })

def jkBPgetInt (msg : JkMsgBuf) (pos : ℕ) : ℕ := msg.byteAt pos * 2 ^ 8 + msg.byteAt (pos + 1)

def jkBGetInt (msg : JkMsgBuf) : ℕ × JkMsgBuf :=
  if msg.len < msg.pos + 1 then (0xFFFF, msg) else (jkBPgetInt msg msg.pos, { msg with pos := msg.pos + 2 })

def jkBGetByte (msg : JkMsgBuf) : ℕ × JkMsgBuf :=
  if msg.len < msg.pos then (0xFF, msg) else (msg.byteAt msg.pos, { msg with pos := msg.pos + 1 })

/-- the string that starts at a place of the buffer -/
def cString (bs : Bytes) : Bytes := bs.takeWhile (· ≠ 0)

def jkBGetString (msg : JkMsgBuf) : Option Bytes × JkMsgBuf :=
  let (size, msg) := jkBGetInt msg
  if size = 0xFFFF ∨ msg.maxlen < size + msg.pos then (none, msg)
  else (some (cString (msg.buf.drop msg.pos)), { msg with pos := msg.pos + size + 1 })

def jkBGetBytes (msg : JkMsgBuf) (len : ℕ) : Option Bytes × JkMsgBuf :=
  if msg.maxlen < len + msg.pos then (none, msg)
  else (some ((msg.buf.drop msg.pos).take len), { msg with pos := msg.pos + len })

/-- what `ajp_connection_tcp_get_message` returns, with the rest of the stream -/
inductive GetMessage where
  | message (msg : JkMsgBuf) (rest : Bytes)
  /-- JK_FALSE -/
  | noHeader
  /-- JK_AJP_PROTOCOL_ERROR -/
  | protocolError

theorem len_le_received {bs buf : Bytes} {msglen : ℕ} (h : msglen ≤ bs.length) :
    msglen ≤ (bs.take msglen ++ buf.drop msglen).length := by
  simp only [List.length_append, List.length_take, List.length_drop]
  omega

/-- `ajp_connection_tcp_get_message`: header is that of the protocol, the stream ends where the connection does -/
def ajpConnectionTcpGetMessage (header : ℕ) (msg : JkMsgBuf) : Bytes → GetMessage
  | h₀ :: h₁ :: h₂ :: h₃ :: stream =>
    if h₀.toNat * 2 ^ 8 + h₁.toNat ≠ header then .protocolError
    else
      let msglen := h₂.toNat * 2 ^ 8 + h₃.toNat
      if msg.maxlen < msglen then .protocolError
      else if h : msglen ≤ stream.length then
        .message ⟨stream.take msglen ++ msg.buf.drop msglen, 0, msglen, len_le_received h⟩ (stream.drop msglen)
      else .protocolError
  | _ => .noHeader

/-! ## Fields -/

/-- what is appended, with the functions that append it and get it -/
inductive Field where
  | long (val : ℕ)
  | int (val : ℕ)
  | byte (val : UInt8)
  | string (param : Option Bytes)
  | bytes (param : Bytes)
deriving DecidableEq

inductive Kind where
  | long
  | int
  | byte
  | string
  | bytes (len : ℕ)

namespace Field

def kind : Field → Kind
  | .long _ => .long
  | .int _ => .int
  | .byte _ => .byte
  | .string _ => .string
  | .bytes param => .bytes param.length

def append (msg : JkMsgBuf) : Field → Option JkMsgBuf
  | .long val => jkBAppendLong msg val
  | .int val => jkBAppendInt msg val
  | .byte val => jkBAppendByte msg val
  | .string param => jkBAppendString msg param
  | .bytes param => jkBAppendBytes msg param

def encode : Field → Bytes
  | .long val => be32 val
  | .int val => be16 val
  | .byte val => [val]
  | .string none => be16 0xFFFF
  | .string (some param) => be16 param.length ++ (param ++ [0])
  | .bytes param => param

/-- values that can be told apart when they are read: a long must not reach the sign, nor a string the length that stands for NULL -/
def Readable : Field → Prop
  | .long val => val < 2 ^ 31
  | .int val => val < 2 ^ 16
  | .byte _ => True
  | .string none => True
  | .string (some param) => param.length < 0xFFFF ∧ 0 ∉ param
  | .bytes _ => True

end Field

def Kind.get (msg : JkMsgBuf) : Kind → Option Field × JkMsgBuf
  | .long => ((jkBGetLong msg).map (fun val => some (.long val)) id)
  | .int => ((jkBGetInt msg).map (fun val => some (.int val)) id)
  | .byte => ((jkBGetByte msg).map (fun val => some (.byte (.ofNat val))) id)
  | .string => ((jkBGetString msg).map (fun param => some (.string param)) id)
  | .bytes len => ((jkBGetBytes msg len).map (fun param => param.map .bytes) id)

/-- one field after the other -/
def getAll : List Kind → JkMsgBuf → Option (List Field) × JkMsgBuf
  | [], msg => (some [], msg)
  | kind :: kinds, msg =>
    match kind.get msg with
    | (none, msg) => (none, msg)
    | (some field, msg) => (getAll kinds msg).map (fun fields => fields.map (field :: ·)) id

def appendAll (msg : JkMsgBuf) (fields : List Field) : Option JkMsgBuf := fields.foldlM Field.append msg

def encodeAll (fields : List Field) : Bytes := fields.flatMap Field.encode

section

variable {msg : JkMsgBuf} {bs t : Bytes}

theorem put_eq_some (h : msg.len + bs.length ≤ msg.maxlen) :
    ∃ msg', msg.put bs = some msg' ∧ msg'.maxlen = msg.maxlen ∧ msg'.pos = msg.pos ∧ msg'.len = msg.len + bs.length ∧
      msg'.buf.take msg'.len = msg.buf.take msg.len ++ bs := by
  refine ⟨_, dif_pos h, JkMsgBuf.length_put h, rfl, rfl, ?_⟩
  have hlen : (msg.buf.take msg.len ++ bs).length = msg.len + bs.length := by
    have := msg.len_le
    simp only [List.length_append, List.length_take]
    omega
  exact List.take_left' hlen

/-- a field that fits -/
theorem append_fits (msg : JkMsgBuf) {field : Field} (hreadable : field.Readable) (h : msg.len + field.encode.length ≤ msg.maxlen) :
    ∃ msg', field.append msg = some msg' ∧ msg'.maxlen = msg.maxlen ∧ msg'.pos = msg.pos ∧
      msg'.len = msg.len + field.encode.length ∧ msg'.buf.take msg'.len = msg.buf.take msg.len ++ field.encode := by
  match field with
  | .long val => exact put_eq_some h
  | .int val => exact put_eq_some h
  | .byte val => exact put_eq_some h
  | .string none =>
    obtain ⟨msg', hput, hmsg'⟩ := put_eq_some h
    have happend : Field.append msg (.string none) = some ((msg.put (Field.encode (.string none))).getD msg) := rfl
    exact ⟨msg', by rw [happend, hput, Option.getD_some], hmsg'⟩
  | .string (some param) =>
    have hlen : param.length % 65536 = param.length := Nat.mod_eq_of_lt (hreadable.1.trans (by omega))
    obtain ⟨msg', hput, hmsg'⟩ := put_eq_some h
    refine ⟨msg', ?_, hmsg'⟩
    have htake : (param ++ [0]).take (param.length + 1) = param ++ [0] := List.take_of_length_le (by simp)
    simp only [Field.append, jkBAppendString, hlen, htake]
    exact hput
  | .bytes param =>
    by_cases hparam : param = []
    · exact ⟨msg, by simp [Field.append, jkBAppendBytes, hparam], rfl, rfl, by simp [Field.encode, hparam], by simp [Field.encode, hparam]⟩
    · obtain ⟨msg', hput, hmsg'⟩ := put_eq_some h
      exact ⟨msg', (if_neg hparam).trans hput, hmsg'⟩

theorem appendAll_fits (msg : JkMsgBuf) {fields : List Field} (hreadable : ∀ field ∈ fields, field.Readable)
    (h : msg.len + (encodeAll fields).length ≤ msg.maxlen) :
    ∃ msg', appendAll msg fields = some msg' ∧ msg'.maxlen = msg.maxlen ∧ msg'.pos = msg.pos ∧
      msg'.len = msg.len + (encodeAll fields).length ∧ msg'.buf.take msg'.len = msg.buf.take msg.len ++ encodeAll fields := by
  induction fields generalizing msg with
  | nil => exact ⟨msg, rfl, rfl, rfl, rfl, by simp [encodeAll]⟩
  | cons field fields ih =>
    obtain ⟨hfield, hfields⟩ := List.forall_mem_cons.1 hreadable
    have hencode : encodeAll (field :: fields) = field.encode ++ encodeAll fields := List.flatMap_cons
    rw [hencode, List.length_append] at h ⊢
    obtain ⟨msg₁, happend₁, hmaxlen₁, hpos₁, hlen₁, hbuf₁⟩ := append_fits msg hfield (by omega)
    obtain ⟨msg₂, happend₂, hmaxlen₂, hpos₂, hlen₂, hbuf₂⟩ := ih msg₁ hfields (by omega)
    refine ⟨msg₂, ?_, hmaxlen₂.trans hmaxlen₁, hpos₂.trans hpos₁, by omega, ?_⟩
    · rw [appendAll, List.foldlM_cons, happend₁, Option.bind_eq_bind, Option.bind_some]
      exact happend₂
    · rw [hbuf₂, hbuf₁, List.append_assoc]

/-! ## Getting what was appended -/

theorem byteAt_of_drop {b : UInt8} {pos : ℕ} (h : msg.buf.drop pos = b :: t) :
    msg.byteAt pos = b.toNat ∧ msg.buf.drop (pos + 1) = t := by
  have hhead : msg.buf[pos]? = some b := by
    have := congrArg List.head? h
    rwa [List.head?_drop] at this
  refine ⟨by simp [JkMsgBuf.byteAt, hhead], ?_⟩
  rw [← List.drop_drop, h, List.drop_one, List.tail_cons]

theorem toNat_be16 {val : ℕ} (h : val < 2 ^ 16) : (UInt8.ofNat (val / 256)).toNat * 2 ^ 8 + (UInt8.ofNat val).toNat = val := by
  simp only [UInt8.toNat_ofNat']
  omega

theorem pgetInt_be16 {val pos : ℕ} (hval : val < 2 ^ 16) (h : msg.buf.drop pos = be16 val ++ t) : jkBPgetInt msg pos = val := by
  obtain ⟨hhigh, h⟩ := byteAt_of_drop h
  obtain ⟨hlow, -⟩ := byteAt_of_drop h
  rw [jkBPgetInt, hhigh, hlow, toNat_be16 hval]

theorem getInt_be16 (msg : JkMsgBuf) {val : ℕ} (hval : val < 2 ^ 16) (h : msg.buf.drop msg.pos = be16 val ++ t) (hlen : msg.pos + 2 ≤ msg.len) :
    jkBGetInt msg = (val, { msg with pos := msg.pos + 2 }) := by
  rw [jkBGetInt, if_neg (by omega), pgetInt_be16 hval h]

theorem getLong_be32 {val : ℕ} (hval : val < 2 ^ 31) (h : msg.buf.drop msg.pos = be32 val ++ t) (hlen : msg.pos + 4 ≤ msg.len) :
    jkBGetLong msg = (val, { msg with pos := msg.pos + 4 }) := by
  obtain ⟨h₀, h⟩ := byteAt_of_drop h
  obtain ⟨h₁, h⟩ := byteAt_of_drop h
  obtain ⟨h₂, h⟩ := byteAt_of_drop h
  obtain ⟨h₃, -⟩ := byteAt_of_drop h
  have hsum : msg.byteAt msg.pos * 2 ^ 24 + msg.byteAt (msg.pos + 1) * 2 ^ 16 + msg.byteAt (msg.pos + 2) * 2 ^ 8 +
      msg.byteAt (msg.pos + 3) = val := by
    rw [h₀, h₁, h₂, h₃]
    simp only [UInt8.toNat_ofNat']
    omega
  rw [jkBGetLong, if_neg (by omega)]
  simp only [hsum, hval, if_true]

theorem getString_encode {param : Bytes} (hlen : param.length < 0xFFFF) (hzero : 0 ∉ param)
    (h : msg.buf.drop msg.pos = Field.encode (.string (some param)) ++ t)
    (hfits : msg.pos + (Field.encode (.string (some param))).length ≤ msg.len) :
    jkBGetString msg = (some param, { msg with pos := msg.pos + (Field.encode (.string (some param))).length }) := by
  have hsize : (Field.encode (.string (some param))).length = 2 + param.length + 1 := by simp [Field.encode, be16]; omega
  rw [hsize] at hfits ⊢
  have hint := getInt_be16 msg (t := param ++ [0] ++ t) (show param.length < 2 ^ 16 by omega)
    (by rw [h]; simp [Field.encode]) (by omega)
  have hmax := msg.len_le
  have hrest : msg.buf.drop (msg.pos + 2) = param ++ 0 :: t := by
    rw [← List.drop_drop, h]
    simp [Field.encode, be16]
  have hstring : cString (param ++ 0 :: t) = param := by
    rw [cString, List.takeWhile_append_of_pos fun b hb => by simpa using fun h : b = 0 => hzero (h ▸ hb)]
    simp
  have hroom : ¬ (param.length = 0xFFFF ∨ JkMsgBuf.maxlen { msg with pos := msg.pos + 2 } < param.length + (msg.pos + 2)) := by
    simp only [JkMsgBuf.maxlen]
    omega
  rw [jkBGetString, hint]
  refine (if_neg hroom).trans ?_
  rw [hrest, hstring]
  simp only [Nat.add_assoc]

/-- a field is read back wherever it stands -/
theorem get_encoded {field : Field} (hreadable : field.Readable) (h : msg.buf.drop msg.pos = field.encode ++ t)
    (hlen : msg.pos + field.encode.length ≤ msg.len) :
    field.kind.get msg = (some field, { msg with pos := msg.pos + field.encode.length }) := by
  match field with
  | .long val =>
    simp only [Field.kind, Kind.get, getLong_be32 hreadable h hlen]
    rfl
  | .int val =>
    simp only [Field.kind, Kind.get, getInt_be16 msg hreadable h hlen]
    rfl
  | .byte val =>
    have hbyte := (byteAt_of_drop h).1
    have hpos : ¬ msg.len < msg.pos := by omega
    simp [Field.kind, Kind.get, jkBGetByte, hpos, hbyte, Field.encode]
  | .string none =>
    have hnull := getInt_be16 msg (show 0xFFFF < 2 ^ 16 by omega) h hlen
    simp only [Field.kind, Kind.get, jkBGetString, hnull, true_or, if_true]
    rfl
  | .string (some param) =>
    simp only [Field.kind, Kind.get, getString_encode hreadable.1 hreadable.2 h hlen]
    rfl
  | .bytes param =>
    have hmax := msg.len_le
    have hfits : ¬ msg.maxlen < param.length + msg.pos := by
      simp only [Field.encode] at hlen
      simp only [JkMsgBuf.maxlen]
      omega
    simp [Field.kind, Kind.get, jkBGetBytes, hfits, h, Field.encode]

theorem getAll_encoded (msg : JkMsgBuf) {fields : List Field} (hreadable : ∀ field ∈ fields, field.Readable)
    (h : msg.buf.drop msg.pos = encodeAll fields ++ t) (hlen : msg.pos + (encodeAll fields).length ≤ msg.len) :
    getAll (fields.map Field.kind) msg = (some fields, { msg with pos := msg.pos + (encodeAll fields).length }) := by
  induction fields generalizing msg with
  | nil => rfl
  | cons field fields ih =>
    obtain ⟨hfield, hfields⟩ := List.forall_mem_cons.1 hreadable
    have hencode : encodeAll (field :: fields) = field.encode ++ encodeAll fields := List.flatMap_cons
    rw [hencode] at h hlen ⊢
    rw [List.append_assoc] at h
    rw [List.length_append] at hlen ⊢
    have hget := get_encoded hfield h (by omega)
    have hrest : msg.buf.drop (msg.pos + field.encode.length) = encodeAll fields ++ t := by
      rw [← List.drop_drop, h, List.drop_left]
    have hall := ih { msg with pos := msg.pos + field.encode.length } hfields hrest (by simp only; omega)
    rw [List.map_cons, getAll, hget]
    simp only [hall, Prod.map_apply, Option.map_some, id_eq, Nat.add_assoc]

/-! ## Over the connection -/

/-- what `jk_tcp_socket_sendfull` sends of a message that is ended -/
def JkMsgBuf.sent (msg : JkMsgBuf) : Bytes := msg.buf.take msg.len

theorem sent_end (protoh : ℕ) (hlen : 4 ≤ msg.len) (hbuf : msg.buf.take msg.len = msg.buf.take 4 ++ bs) :
    bs.length = msg.len - 4 ∧ (jkBEnd msg protoh).sent = be16 protoh ++ be16 bs.length ++ bs := by
  have hbs : bs = (msg.buf.drop 4).take (msg.len - 4) := by
    have hdrop := congrArg (List.drop 4) hbuf
    rw [List.drop_take, List.drop_left' (by have := msg.len_le; simp only [List.length_take]; omega)] at hdrop
    exact hdrop.symm
  have hlength : bs.length = msg.len - 4 := by
    have := msg.len_le
    rw [hbs, List.length_take, List.length_drop]
    omega
  refine ⟨hlength, ?_⟩
  have hhead : (be16 protoh ++ be16 (msg.len - 4)).length = 4 := rfl
  rw [JkMsgBuf.sent, jkBEnd, hlength, List.take_append, hhead, List.take_of_length_le (hhead.le.trans hlen), ← hbs]

theorem getMessage_sent {protoh : ℕ} {reply : JkMsgBuf} (rest : Bytes) (hprotoh : protoh < 2 ^ 16) (hlen : bs.length < 2 ^ 16)
    (hreply : bs.length ≤ reply.maxlen) :
    ajpConnectionTcpGetMessage protoh reply (be16 protoh ++ be16 bs.length ++ bs ++ rest) =
      .message ⟨bs ++ reply.buf.drop bs.length, 0, bs.length, by simp⟩ rest := by
  have hframe : be16 protoh ++ be16 bs.length ++ bs ++ rest = UInt8.ofNat (protoh / 256) :: UInt8.ofNat protoh ::
      UInt8.ofNat (bs.length / 256) :: UInt8.ofNat bs.length :: (bs ++ rest) := by simp [be16]
  have hfits : ¬ reply.maxlen < bs.length := by omega
  rw [hframe, ajpConnectionTcpGetMessage]
  simp only [toNat_be16 hprotoh, toNat_be16 hlen, ne_eq, not_true_eq_false, if_false, hfits, List.length_append,
    Nat.le_add_right, dite_true, List.take_left, List.drop_left]

/-- **A message is received as it was sent.** Readable fields that fit into the buffers of both sides are appended, sent, received
and got back one by one, up to the end of the message; what follows it on the connection stays there. -/
theorem message_round_trip (protoh maxlen : ℕ) (hmaxlen : 4 ≤ maxlen) (fields : List Field) (reply : JkMsgBuf) (rest : Bytes)
    (hprotoh : protoh < 2 ^ 16) (hreadable : ∀ field ∈ fields, field.Readable) (hfits : 4 + (encodeAll fields).length ≤ maxlen)
    (hlen : (encodeAll fields).length < 2 ^ 16) (hreply : (encodeAll fields).length ≤ reply.maxlen) :
    ∃ msg received, appendAll (jkBReset maxlen hmaxlen) fields = some msg ∧
      ajpConnectionTcpGetMessage protoh reply ((jkBEnd msg protoh).sent ++ rest) = .message received rest ∧
      getAll (fields.map Field.kind) received = (some fields, { received with pos := received.len }) := by
  have hreset : (jkBReset maxlen hmaxlen).maxlen = maxlen := List.length_replicate
  obtain ⟨msg, happend, -, -, hmsglen, hbuf⟩ := appendAll_fits (jkBReset maxlen hmaxlen) hreadable (hfits.trans hreset.ge)
  have hstart : (jkBReset maxlen hmaxlen).len = 4 := rfl
  rw [hstart] at hmsglen hbuf
  have hbuf' : msg.buf.take msg.len = msg.buf.take 4 ++ encodeAll fields := by
    have htake := congrArg (List.take 4) hbuf
    rw [List.take_take, List.take_left' (by simp [jkBReset, hmaxlen]), min_eq_left (by omega)] at htake
    rw [hbuf, ← htake]
  obtain ⟨-, hsent⟩ := sent_end protoh (by omega) hbuf'
  refine ⟨msg, _, happend, by rw [hsent]; exact getMessage_sent rest hprotoh hlen hreply, ?_⟩
  rw [getAll_encoded _ (t := reply.buf.drop (encodeAll fields).length) hreadable rfl (by simp)]
  simp

/-- a status line of a reply, and a byte of what follows it -/
theorem round_trip_headers : ∃ msg received,
    appendAll (jkBReset 32 (by decide)) [.byte 4, .int 200, .string (some [79, 75]), .int 0] = some msg ∧
      ajpConnectionTcpGetMessage 0x4142 (jkBReset 32 (by decide)) ((jkBEnd msg 0x4142).sent ++ [65]) = .message received [65] ∧
      getAll [.byte, .int, .string, .int] received =
        (some [.byte 4, .int 200, .string (some [79, 75]), .int 0], { received with pos := received.len }) :=
  message_round_trip 0x4142 32 (by decide) _ _ [65] (by decide) (by simp [Field.Readable]) (by decide) (by decide) (by decide)

end

end Rubbos.Connector
