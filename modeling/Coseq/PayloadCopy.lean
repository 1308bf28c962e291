import Coseq.MemoryBlock
import Coseq.ReplyRecord
import Coseq.System

/-! The copies of a message, with the blocks they are made in: the ones that an event, a reply record and the
external mailbox own, and the ones in a source buffer that is used again and grows. Each is compared with the
function of the model that has lists for the buffers. -/

namespace Coseq

open MemoryBlock

/-- What the sender of an event has passed. It has come `whole` as long as no allocation for a copy has failed. -/
structure Sent where
  reqId : Nat
  result : Result
  msg : Bytes
  whole : Bool

/-- A message in a block of its own: `msg` and `msg_size` of `ev_t`, `msg` and `size` of `reply_rec_t`, `ext_msg` and
`ext_size`. -/
structure MsgCopy where
  msg : Ptr UInt8
  size : Nat
  sent : Sent

/-- The buffer behind a source record: `src_buf`, `src_cap` and `src.msg.size` of a fiber, `buf`, `cap` and
`s.msg.size` of an external thread. The pointer `msg.msg` of the record is set to the buffer with each write. -/
structure Receiver where
  buf : Ptr UInt8
  cap : Nat
  size : Nat
  sent : Sent

namespace Sent

def nothing : Sent := ⟨0, .ignore, [], true⟩

/-- An allocation for a copy has failed. -/
def cut (x : Sent) : Sent := { x with whole := false }

/-- The bytes `l` have arrived of what was sent with this id and result. -/
structure Delivers (x : Sent) (rid : Nat) (r : Result) (l : Bytes) : Prop where
  reqId : x.reqId = rid
  result : x.result = r
  bytes : l <+: x.msg
  whole : x.whole = true → l = x.msg

variable {x : Sent} {rid : Nat} {r : Result} {l l' : Bytes}

theorem Delivers.cut (h : x.Delivers rid r l) (hl : l' <+: l) : x.cut.Delivers rid r l' :=
  ⟨h.reqId, h.result, hl.trans h.bytes, fun hwhole => by cases hwhole⟩

theorem delivers_all {x : Sent} : x.Delivers x.reqId x.result x.msg :=
  ⟨rfl, rfl, List.prefix_refl _, fun _ => rfl⟩

end Sent

/-! ### Copies in blocks of their own -/

namespace MsgCopy

def nothing : MsgCopy := ⟨none, 0, .nothing⟩

/-- The copy of a message of `size` bytes, or none when there is no memory for it. -/
def duplicate (msg : Ptr UInt8) (size : Nat) (x : Sent) (granted : Bool) : Option MsgCopy :=
  if msg.isSome ∧ size > 0 then
    if granted then (memcpy (malloc size) msg size).map fun p => ⟨p, size, x⟩ else some ⟨none, 0, x.cut⟩
  else some ⟨none, 0, x⟩

/-- The message in `make_ev`. -/
def makeEv (x : Sent) (ok : Alloc) : Option MsgCopy := duplicate (.holding x.msg) x.msg.length x (ok .eventMsg)

/-- The message in `ext_deliver`. -/
def extDeliver (x : Sent) (ok : Alloc) : Option MsgCopy := duplicate (.holding x.msg) x.msg.length x (ok .extMsg)

/-- The message in the record that `handle_reply` queues. -/
def handleReply (c : MsgCopy) (ok : Alloc) : Option MsgCopy := duplicate c.msg c.size c.sent (ok .replyMsg)

structure Stores (c : MsgCopy) (l : Bytes) : Prop where
  size : c.size = l.length
  reads : c.msg.Reads l

variable {msg : Ptr UInt8} {l : Bytes}

theorem stores_nothing : nothing.Stores [] := ⟨rfl, Ptr.reads_nil⟩

/-- The copy is made inside both blocks. -/
theorem duplicate_stores (x : Sent) (granted : Bool) (h : msg.Reads l) :
    ∃ c, duplicate msg l.length x granted = some c ∧ c.Stores (if granted then l else []) ∧
    ∀ rid r, x.Delivers rid r l → c.sent.Delivers rid r (if granted then l else []) := by
  unfold duplicate
  by_cases hl : l = []
  · subst hl
    rw [if_neg (by simp), ite_self]
    exact ⟨_, rfl, ⟨rfl, Ptr.reads_nil⟩, fun _ _ hx => hx⟩
  · have hsome := h.isSome hl
    rw [if_pos ⟨hsome, List.length_pos_iff.mpr hl⟩]
    cases granted with
    | true =>
        have hcopy : memcpy (malloc l.length) msg l.length = _ := memcpy_all rfl malloc_length hsome h
        rw [if_pos rfl, if_pos rfl, hcopy]
        exact ⟨_, rfl, ⟨rfl, Ptr.reads_holding⟩, fun _ _ hx => hx⟩
    | false => exact ⟨_, rfl, ⟨rfl, Ptr.reads_nil⟩, fun _ _ hx => hx.cut List.nil_prefix⟩

end MsgCopy

/-! ### Copies in a buffer that is used again -/

namespace Receiver

def nothing : Receiver := ⟨none, 0, 0, .nothing⟩

/-- The buffer is made large enough; without memory for that `fallback` bytes are to be copied. -/
def grow (r : Receiver) (size fallback : Nat) (x : Sent) (granted : Bool) : Receiver :=
  if size > r.cap then
    if granted then ⟨realloc r.buf size, size, size, x⟩ else ⟨r.buf, r.cap, fallback, x.cut⟩
  else ⟨r.buf, r.cap, size, x⟩

def copy (r : Receiver) (msg : Ptr UInt8) : Option Receiver :=
  (memcpy r.buf msg r.size).map fun buf => { r with buf := buf }

/-- `set_src`. -/
def setSrc (r : Receiver) (msg : Ptr UInt8) (size : Nat) (x : Sent) (ok : Alloc) : Option Receiver :=
  let r' := r.grow size r.cap x (ok .srcBuf)
  if msg.isSome ∧ r'.size > 0 then r'.copy msg else some r'

/-- The end of `_request_sync`. -/
def requestSync (r : Receiver) (c : MsgCopy) (ok : Alloc) : Option Receiver :=
  let r' := r.grow c.size 0 c.sent (ok .syncBuf)
  if r'.size > 0 then r'.copy c.msg else some r'

/-- What is read through `msg.msg` and `msg.size` of the record. -/
def read (r : Receiver) : List (Option UInt8) := r.buf.cells.take r.size

/-- The buffer of the model, of which `size` bytes are the message. -/
structure Holds (r : Receiver) (buf : Bytes) (size : Nat) : Prop where
  cells : r.buf.cells = buf.map some
  cap : r.cap = buf.length
  filled : r.size = size
  inside : size ≤ buf.length

variable {r : Receiver} {buf l : Bytes} {k n fallback : Nat} {x : Sent} {granted : Bool} {msg : Ptr UInt8}

theorem holds_nothing : nothing.Holds [] 0 := ⟨rfl, rfl, rfl, Nat.le_refl _⟩

theorem Holds.read (h : r.Holds buf k) : r.read = (buf.take k).map some := by
  rw [Receiver.read, h.cells, h.filled, List.map_take]

/-- The buffer before the copy: it has room for the bytes to be copied, and behind these it is as it was. -/
structure Grown (r : Receiver) (buf l : Bytes) (n : Nat) : Prop where
  size : r.size = n
  cap : r.cap = (l.take n ++ buf.drop n).length
  length : r.buf.cells.length = r.cap
  rest : r.buf.cells.drop n = (buf.drop n).map some

theorem Holds.grow (h : r.Holds buf k) (hback : fallback ≤ buf.length)
    (hn : n = if buf.length < l.length ∧ granted = false then fallback else l.length) :
    (r.grow l.length fallback x granted).Grown buf l n := by
  have hlen : r.buf.cells.length = buf.length := by rw [h.cells, List.length_map]
  unfold Receiver.grow
  rw [h.cap]
  by_cases hlarge : l.length > buf.length
  · rw [if_pos hlarge]
    cases granted with
    | true =>
        rw [if_neg (by simp)] at hn
        subst hn
        have hdrop : buf.drop l.length = [] := List.drop_of_length_le (Nat.le_of_lt hlarge)
        have hcells : (realloc r.buf l.length).cells.length = l.length := realloc_length
        refine ⟨rfl, ?_, hcells, ?_⟩
        · rw [List.take_length, hdrop, List.append_nil]
          rfl
        · rw [hdrop]
          exact List.drop_of_length_le (Nat.le_of_eq hcells)
    | false =>
        rw [if_pos ⟨hlarge, rfl⟩] at hn
        subst hn
        refine ⟨rfl, ?_, hlen, ?_⟩
        · rw [List.length_append, List.length_take, List.length_drop]
          change buf.length = _
          omega
        · change r.buf.cells.drop n = _
          rw [h.cells, List.map_drop]
  · rw [if_neg hlarge]
    rw [if_neg (fun hboth => hlarge hboth.1)] at hn
    subst hn
    refine ⟨rfl, ?_, hlen, ?_⟩
    · rw [List.take_length, List.length_append, List.length_drop]
      change buf.length = _
      omega
    · change r.buf.cells.drop l.length = _
      rw [h.cells, List.map_drop]

/-- The copy is made inside both blocks, and leaves what the model's does. -/
theorem Grown.copy (h : r.Grown buf l n) (hmsg : msg.Reads l) (hn : n ≤ l.length) (hpos : 0 < n) :
    ∃ r', r.copy msg = some r' ∧ r'.sent = r.sent ∧ r'.Holds (l.take n ++ buf.drop n) n := by
  have hlen : (l.take n ++ buf.drop n).length = n + (buf.length - n) := by
    rw [List.length_append, List.length_take, List.length_drop, Nat.min_eq_left hn]
  have hroom : n ≤ r.buf.cells.length := by
    rw [h.length, h.cap, hlen]
    exact Nat.le_add_right ..
  have hdst : r.buf.isSome = true := by
    cases hbuf : r.buf with
    | none =>
        rw [hbuf] at hroom
        exact absurd hroom (Nat.not_le_of_lt hpos)
    | some d => rfl
  have hsrc : msg.isSome = true := by
    refine hmsg.isSome fun hnil => ?_
    subst hnil
    exact absurd hn (Nat.not_le_of_lt hpos)
  have hcopy := memcpy_reads hdst hroom hsrc hmsg hn
  rw [Receiver.copy, h.size, hcopy]
  refine ⟨_, rfl, rfl, ?_, h.cap, rfl, ?_⟩
  · change (l.take n).map some ++ r.buf.cells.drop n = _
    rw [h.rest, List.map_append]
  · rw [hlen]
    exact Nat.le_add_right ..

/-- Nothing is copied. -/
theorem Grown.empty (h : r.Grown buf l 0) : r.Holds buf 0 :=
  ⟨h.rest, h.cap, h.size, Nat.zero_le _⟩

theorem grow_sent : (r.grow l.length fallback x granted).sent =
    if r.cap < l.length ∧ granted = false then x.cut else x := by
  unfold Receiver.grow
  by_cases hlarge : l.length > r.cap
  · cases granted <;> simp [hlarge]
  · simp [hlarge]

/-- The record `src` with its buffer: the memory holds what the model has, and that has been sent with the id and the
result in the record. -/
structure Shows (r : Receiver) (src : Src) (buf : Bytes) : Prop where
  holds : r.Holds buf src.size
  sent : r.sent.Delivers src.reqId src.result (buf.take src.size)

theorem shows_nothing : nothing.Shows ⟨0, 0, 0, .ignore, 0, 0⟩ [] :=
  ⟨holds_nothing, Sent.delivers_all⟩

/-- The buffer is grown and written with the bytes that fit. -/
theorem Holds.fill {p : Prop} [Decidable p] (h : r.Holds buf k) (src : Src) (hback : fallback ≤ buf.length)
    (hmsg : msg.Reads l) (hx : x.Delivers src.reqId src.result l)
    (hn : src.size = if buf.length < l.length ∧ granted = false then fallback else l.length)
    (hp : p ↔ 0 < src.size) : ∃ r', (if p then (r.grow l.length fallback x granted).copy msg
        else some (r.grow l.length fallback x granted)) = some r' ∧
      r'.Shows src (l.take src.size ++ buf.drop src.size) := by
  have hle : src.size ≤ l.length := by
    rw [hn]
    split <;> omega
  have hgrown := h.grow (x := x) hback hn
  have hread : (l.take src.size ++ buf.drop src.size).take src.size = l.take src.size :=
    List.take_left' (by rw [List.length_take, Nat.min_eq_left hle])
  have hsent : (r.grow l.length fallback x granted).sent.Delivers src.reqId src.result (l.take src.size) := by
    rw [grow_sent, h.cap]
    by_cases hfail : buf.length < l.length ∧ granted = false
    · rw [if_pos hfail]
      exact hx.cut (List.take_prefix _ _)
    · rw [if_neg hfail] at hn ⊢
      rw [hn, List.take_length]
      exact hx
  by_cases hpos : 0 < src.size
  · obtain ⟨r', hcopy, hsame, hholds⟩ := hgrown.copy hmsg hle hpos
    rw [if_pos (hp.mpr hpos)]
    refine ⟨r', hcopy, hholds, ?_⟩
    rw [hread, hsame]
    exact hsent
  · have hzero : src.size = 0 := Nat.eq_zero_of_not_pos hpos
    rw [if_neg (mt hp.mp hpos)]
    refine ⟨_, rfl, ?_, ?_⟩
    · rw [hzero] at hgrown ⊢
      exact hgrown.empty
    · rw [hread]
      exact hsent

/-- `set_src` copies inside its blocks what the model writes. -/
theorem setSrc_shows {f : Fiber} {res : Result} {rid : Nat} (h : r.Holds f.srcBuf k) (ok : Alloc) (hmsg : msg.Reads l)
    (hx : x.Delivers rid res l) (t s client : Nat) : ∃ r', r.setSrc msg l.length x ok = some r' ∧
      r'.Shows (f.setSrc l res t s client rid ok).src (f.setSrc l res t s client rid ok).srcBuf := by
  have hroom : f.room l.length ok = if f.srcBuf.length < l.length ∧ ok .srcBuf = false then r.cap else l.length := by
    rw [h.cap]
    rfl
  have hback : r.cap ≤ f.srcBuf.length := Nat.le_of_eq h.cap
  refine h.fill (f.setSrc l res t s client rid ok).src hback hmsg hx hroom ?_
  rw [(h.grow (x := x) hback hroom).size]
  refine ⟨fun hboth => hboth.2, fun hpos => ⟨hmsg.isSome fun hnil => ?_, hpos⟩⟩
  subst hnil
  exact absurd (f.room_le 0 ok) (Nat.not_le_of_lt hpos)

/-- The end of `_request_sync` does. -/
theorem requestSync_shows {c : Ctx} {th : ExtThread} {m : MsgCopy} {rid : Nat} (h : r.Holds th.buf k) (ok : Alloc)
    (hmsg : m.Stores c.extMsg) (hx : m.sent.Delivers rid c.extResult c.extMsg) (t i seq : Nat) :
    ∃ r', r.requestSync m ok = some r' ∧
      r'.Shows (syncReturn c th t rid i seq ok).2.s (syncReturn c th t rid i seq ok).2.buf := by
  have hsize : (syncReturn c th t rid i seq ok).2.s.size =
      if th.buf.length < c.extMsg.length ∧ ok .syncBuf = false then 0 else c.extMsg.length := rfl
  rw [Receiver.requestSync, hmsg.size]
  refine h.fill (syncReturn c th t rid i seq ok).2.s (Nat.zero_le _) hmsg.reads hx hsize ?_
  rw [(h.grow (x := m.sent) (Nat.zero_le _) hsize).size]

end Receiver

end Coseq
