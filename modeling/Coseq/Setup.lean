import Coseq.ResourceLog
import Coseq.System

/-! The life of an instance: `create_coseq`, `setup`, `teardown` and `destroy`, with the pthread calls they make
and which of these fail. -/

namespace Coseq

/-- The pthread objects of an instance. A thread is acquired by `pthread_create` and released by
`pthread_join`. -/
inductive Pthread where
  | extMutex
  | extCond
  | mutex (i : Nat)
  | cond (i : Nat)
  | thread (i : Nat)
  deriving DecidableEq

/-- A pthread call that has taken effect. -/
abbrev PthreadOp := ResourceLog.Op Pthread

/-- Which objects cannot be initialised or created during a call. A failing call has no effect. -/
abbrev Failing := Pthread → Bool

/-- `coseq_seq_t`. -/
structure SeqEntry (φ : Type) where
  fn : φ
  name : Bytes

/-- `coseq_reg_t`. -/
structure RegEntry (φ υ : Type) where
  name : Option Bytes
  nrQueMax : Nat
  seqArray : List (SeqEntry φ)
  nrSeqMax : Nat
  recvNotify : Option φ
  user : Option υ

/-- What the scheduler needs of the entry. -/
def RegEntry.reg {φ υ : Type} (r : RegEntry φ υ) : Reg := ⟨r.nrSeqMax, r.recvNotify.isSome⟩

/-- The fields of a `module_t` that `_setup` and `stop_modules` work on; `module` are those of the scheduler. -/
structure Slot (φ υ : Type) where
  module : Module
  name : Bytes
  queMax : Nat
  seqs : List (SeqEntry φ)
  recvNotify : Option φ
  user : Option υ
  thStarted : Bool

/-- `coseq_ctx_private` with what has been done to its pthread objects. -/
structure Instance (φ υ : Type) where
  slot : Nat → Slot φ υ
  nrModule : Nat
  ops : List PthreadOp

variable {φ υ : Type}

/-- `memset`. -/
def Slot.zero (φ υ : Type) : Slot φ υ where
  module := { Module.boot 0 ⟨0, false⟩ with nextReqId := 0 }
  name := []
  queMax := 0
  seqs := []
  recvNotify := none
  user := none
  thStarted := false

/-- A module after the assignments of the first loop of `_setup`. -/
def Slot.fill (i : Nat) (r : RegEntry φ υ) : Slot φ υ :=
  { Slot.zero φ υ with
    module := { Module.boot i r.reg with nextReqId := 0 }
    name := (r.name.getD []).take 15
    queMax := r.nrQueMax
    seqs := r.seqArray
    recvNotify := r.recvNotify
    user := r.user }

namespace Instance

variable (c : Instance φ υ)

def did (op : PthreadOp) : Instance φ υ := { c with ops := c.ops ++ [op] }

def setSlot (i : Nat) (s : Slot φ υ) : Instance φ υ := { c with slot := Function.update c.slot i s }

/-- One turn of the first loop of `stop_modules`: `stop` is set under the mutex and signalled. -/
def signalStop (i : Nat) : Instance φ υ :=
  let s := c.slot i
  if s.thStarted then
    ((c.did (.use (.mutex i))).setSlot i { s with module := { s.module with stop := true } }).did (.use (.cond i))
  else c

/-- One turn of its second loop. -/
def join (i : Nat) : Instance φ υ :=
  let s := c.slot i
  if s.thStarted then (c.did (.release (.thread i))).setSlot i { s with thStarted := false } else c

/-- One turn of its third loop. The lists freed before the two calls are never read again. -/
def destroyModule (i : Nat) : Instance φ υ := (c.did (.release (.mutex i))).did (.release (.cond i))

def stopModules (nr : Nat) : Instance φ υ :=
  let c := (List.range nr).foldl signalStop c
  let c := (List.range nr).foldl join c
  (List.range nr).foldl destroyModule c

end Instance

/-- One turn of the first loop of `_setup`; an error is an early return. -/
def initModule (fails : Failing) (tbl : Nat → RegEntry φ υ) (c : Instance φ υ) (i : Nat) :
    Except (Instance φ υ) (Instance φ υ) :=
  let s := Slot.fill i (tbl i)
  let c := c.setSlot i s
  if fails (.mutex i) then .error { c with nrModule := 0 }
  else
    let c := c.did (.acquire (.mutex i))
    if fails (.cond i) then .error { c.did (.release (.mutex i)) with nrModule := 0 }
    else .ok ((c.did (.acquire (.cond i))).setSlot i { s with module := { s.module with nextReqId := 1 } })

/-- One turn of its second loop. -/
def startModule (fails : Failing) (nr : Nat) (c : Instance φ υ) (i : Nat) :
    Except (Instance φ υ) (Instance φ υ) :=
  if fails (.thread i) then .error { c.stopModules nr with nrModule := 0 }
  else .ok ((c.did (.acquire (.thread i))).setSlot i { c.slot i with thStarted := true })

def maxModule : Nat := 32

/-- `_setup` after its check of the size. -/
def setupModules (fails : Failing) (c : Instance φ υ) (tbl : Nat → RegEntry φ υ) (nrTbl : Nat) :
    Except (Instance φ υ) (Instance φ υ) := do
  let c ← (List.range nrTbl).foldlM (initModule fails tbl) { c with nrModule := nrTbl }
  (List.range nrTbl).foldlM (startModule fails nrTbl) c

/-- `_setup`: the value returned and the instance after it. -/
def setup (fails : Failing) (c : Instance φ υ) (tbl : Nat → RegEntry φ υ) (nrTbl : Nat) : Bool × Instance φ υ :=
  if nrTbl > maxModule then (false, c)
  else
    match setupModules fails c tbl nrTbl with
    | .error c => (false, c)
    | .ok c => (true, c)

def teardown (c : Instance φ υ) : Instance φ υ :=
  if c.nrModule = 0 then c else { c with nrModule := 0 }.stopModules c.nrModule

/-- `create_coseq`, once it has its memory. -/
def createCoseq (φ υ : Type) (fails : Failing) : Except (Instance φ υ) (Instance φ υ) :=
  let c : Instance φ υ := { slot := fun _ => Slot.zero φ υ, nrModule := 0, ops := [] }
  if fails .extMutex then .error c
  else
    let c := c.did (.acquire .extMutex)
    if fails .extCond then .error (c.did (.release .extMutex)) else .ok (c.did (.acquire .extCond))

def destroy (c : Instance φ υ) : Instance φ υ :=
  ((teardown c).did (.release .extMutex)).did (.release .extCond)

end Coseq
