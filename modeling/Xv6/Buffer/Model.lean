import Xv6.Kernel.Basic
import Xv6.Lib.Circular
import Xv6.Lib.Run

/-!
# The buffer cache

`bio.c`: a fixed set of buffers on a circular list, most recently used first. A process that
asks for a block goes through `bget` with `bcache.lock` held and then waits for the sleep lock
of the buffer; when it is done it gives up the sleep lock and goes through the second half of
`brelse`, again with `bcache.lock` held. The parts under `bcache.lock` are one step each, and
the contents of the buffers are left out.
-/

namespace Xv6

open Transition

abbrev BufId := Fin NBUF

/-- A member of the list of buffers; `none` is `bcache.head`. -/
abbrev BufNode := Option BufId

/-- `struct buf`, without its links and its data. The holder is that of the sleep lock. -/
structure Buf where
  valid : Bool
  dirty : Bool
  dev : ℕ
  blockno : ℕ
  holder : Option Slot
  refcnt : ℕ
  deriving DecidableEq, Repr

structure Bcache where
  buf : BufId → Buf
  links : Links BufNode

/-- A buffer as the loader leaves it: all bytes zero. -/
def Buf.empty : Buf where
  valid := false
  dirty := false
  dev := 0
  blockno := 0
  holder := none
  refcnt := 0

/-- `iderw(b)`: the buffer is written if it is dirty and read otherwise. -/
def Buf.iderw (buf : Buf) : Buf := { buf with valid := true, dirty := false }

/-- A buffer that nobody has and that the log does not need. -/
def Buf.Unused (buf : Buf) : Prop := buf.refcnt = 0 ∧ buf.dirty = false

instance (buf : Buf) : Decidable (buf.Unused) :=
  inferInstanceAs (Decidable (_ ∧ _))

namespace Bcache

def modify (cache : Bcache) (b : BufId) (change : Buf → Buf) : Bcache :=
  { cache with buf := Function.update cache.buf b (change (cache.buf b)) }

def binit : Bcache where
  buf := fun _ => .empty
  links := (List.finRange NBUF).foldl (fun links b => links.pushFront none (some b))
    { next := fun _ => none, prev := fun _ => none }

/-- A loop over the buffers, along `next` or along `prev`. -/
def loop (cache : Bcache) (step : BufNode → BufNode) (test : Buf → Bool) : Option BufId :=
  (Links.scan step none (fun node => node.any fun b => test (cache.buf b)) (NBUF + 1)
    (step none)).join

def cached (cache : Bcache) (dev blockno : ℕ) : Option BufId :=
  cache.loop cache.links.next fun buf => buf.dev = dev ∧ buf.blockno = blockno

def victim (cache : Bcache) : Option BufId :=
  cache.loop cache.links.prev fun buf => buf.Unused

/-- `bget` under `bcache.lock`; without a result it panics. -/
def bget (cache : Bcache) (dev blockno : ℕ) : Option (BufId × Bcache) :=
  match cache.cached dev blockno with
  | some b => some (b, cache.modify b fun buf => { buf with refcnt := buf.refcnt + 1 })
  | none =>
      cache.victim.map fun b =>
        (b, cache.modify b fun buf =>
          { buf with dev, blockno, valid := false, dirty := false, refcnt := 1 })

def brelse (cache : Bcache) (b : BufId) : Bcache :=
  let cache := cache.modify b fun buf => { buf with refcnt := buf.refcnt - 1 }
  if (cache.buf b).refcnt = 0 then
    { cache with links := (cache.links.unlink (some b)).pushFront none (some b) }
  else cache

end Bcache

/-- What a process is doing: it is between calls, or in `acquiresleep` at the end of `bget`, or
in `brelse` and has given up the sleep lock. -/
inductive BufPhase where
  | between
  | acquiring (b : BufId)
  | releasing (b : BufId)
  deriving DecidableEq, Repr

structure BufState where
  cache : Bcache
  phase : Slot → BufPhase

/-- The steps of the calls of `bio.c`, and `log_write`. -/
inductive BufCall where
  | bget (dev blockno : ℕ)
  | acquiresleep (b : BufId)
  | bread (b : BufId)
  | bwrite (b : BufId)
  | logWrite (b : BufId)
  | releasesleep (b : BufId)
  | brelse (b : BufId)
  deriving DecidableEq, Repr

namespace BufState

def setPhase (state : BufState) (pid : Slot) (phase : BufPhase) : BufState :=
  { state with phase := Function.update state.phase pid phase }

def modify (state : BufState) (b : BufId) (change : Buf → Buf) : BufState :=
  { state with cache := state.cache.modify b change }

/-- The process has locked the buffer and is not in a call. -/
def Holds (state : BufState) (pid : Slot) (b : BufId) : Prop :=
  state.phase pid = .between ∧ (state.cache.buf b).holder = some pid

instance (state : BufState) (pid : Slot) (b : BufId) : Decidable (state.Holds pid b) :=
  inferInstanceAs (Decidable (_ ∧ _))

/-- One step of a call by a process. A call by a process that does not hold the buffer has no
next state: the source panics. -/
def step (state : BufState) (pid : Slot) : BufCall → Option BufState
  | .bget dev blockno =>
      if state.phase pid = .between then
        (state.cache.bget dev blockno).map fun result =>
          { cache := result.2, phase := Function.update state.phase pid (.acquiring result.1) }
      else none
  | .acquiresleep b =>
      if state.phase pid = .acquiring b ∧ (state.cache.buf b).holder = none then
        some ((state.modify b fun buf => { buf with holder := some pid }).setPhase pid .between)
      else none
  | .bread b =>
      if state.Holds pid b then
        some (state.modify b fun buf => if buf.valid then buf else buf.iderw)
      else none
  | .bwrite b =>
      if state.Holds pid b then
        some (state.modify b fun buf => { buf with dirty := true }.iderw)
      else none
  | .logWrite b =>
      if state.Holds pid b then
        some (state.modify b fun buf => { buf with dirty := true })
      else none
  | .releasesleep b =>
      if state.Holds pid b then
        some ((state.modify b fun buf => { buf with holder := none }).setPhase pid (.releasing b))
      else none
  | .brelse b =>
      if state.phase pid = .releasing b then
        some ({ state with cache := state.cache.brelse b }.setPhase pid .between)
      else none

end BufState

def bufInit : BufState where
  cache := .binit
  phase := fun _ => .between

def bufStep (state : BufState) (label : Slot × BufCall) : Option BufState :=
  state.step label.1 label.2

end Xv6
