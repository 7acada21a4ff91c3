import BridgeLedger.StateKey

/-! Recycled key buffers. A buffer keeps its old contents while it is idle, so whoever takes it overwrites
every byte. -/
namespace BridgeLedger

/-- A pool of buffers of one width; the buffer returned last is handed out first. -/
structure KeyPool where
  width : Nat
  idle : List Octets
deriving DecidableEq

namespace KeyPool

def maxIdle : Nat := 64

def empty (width : Nat) : KeyPool := ⟨width, []⟩

def acquire (p : KeyPool) : Octets × KeyPool :=
  match p.idle with
  | buffer :: rest => (buffer, { p with idle := rest })
  | [] => (List.replicate p.width 0, p)

/-- Takes back a buffer. One of another width is dropped, and so is one for which there is no room. -/
def release (p : KeyPool) (buffer : Octets) : KeyPool :=
  if buffer.length = p.width ∧ p.idle.length < maxIdle then { p with idle := buffer :: p.idle } else p

def overwrite (buffer : Octets) (position : Nat) (bytes : Octets) : Octets :=
  buffer.take position ++ bytes ++ buffer.drop (position + bytes.length)

/-- Writes bytes over a buffer in place. What would reach beyond its end is not written. -/
def rewrite (buffer : Octets) (position : Nat) (bytes : Octets) : Octets :=
  if position + bytes.length ≤ buffer.length then overwrite buffer position bytes else buffer

def balanceKey (p : KeyPool) (owner : Address) (asset : Identifier) : Octets × KeyPool :=
  let (buffer, p) := p.acquire
  let buffer := overwrite buffer 0 [0]
  let buffer := overwrite buffer 1 owner.octets
  let buffer := overwrite buffer 33 asset.octets
  (overwrite buffer 65 (Wire.ofUInt16 StateKey.balanceChunks), p)

end KeyPool

structure KeyPool.Session where
  pool : KeyPool
  held : List Octets

/-- What is done with a pool and the buffers in use: one is taken, bytes are written over one, or one is given back. The
buffers in use are counted from the latest on. -/
inductive KeyPool.Step where
  | acquire
  | rewrite (holder position : Nat) (bytes : Octets)
  | release (holder : Nat)
deriving DecidableEq

namespace KeyPool.Session

def start (width : Nat) : Session := ⟨KeyPool.empty width, []⟩

def acquire (s : Session) : Nat → Session
  | 0 => s
  | n + 1 =>
    let (buffer, pool) := s.pool.acquire
    acquire ⟨pool, buffer :: s.held⟩ n

def release (s : Session) : Nat → Session
  | 0 => s
  | n + 1 =>
    match s.held with
    | [] => s
    | buffer :: rest => release ⟨s.pool.release buffer, rest⟩ n

def step (s : Session) : Step → Session
  | .acquire => s.acquire 1
  | .rewrite i position bytes =>
    { s with held := s.held.modify i fun buffer => KeyPool.rewrite buffer position bytes }
  | .release i =>
    match s.held[i]? with
    | none => s
    | some buffer => ⟨s.pool.release buffer, s.held.eraseIdx i⟩

def run (s : Session) (steps : List Step) : Session := steps.foldl step s

end KeyPool.Session
end BridgeLedger
