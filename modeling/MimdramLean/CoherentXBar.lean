import MimdramLean.Cache

/-!
# Caches on a crossbar

`CoherentXBar::recvTimingReq` and the snoop path of the caches above it. Nothing is above these caches.
The caches that are snooped come with a send: all that are attached, or those that the snoop filter
selects.
-/

namespace MimdramLean

open Library

namespace Cache

variable {p : CacheParams}

/-- What a snoop leaves behind: the cache, the packet, and whether its block is cached. -/
structure Snooped (p : CacheParams) where
  cache : Cache p
  pkt : CachePacket
  blockCached : Bool

/-- `Cache::handleSnoop` in timing mode, of a request that is not deferred. -/
def handleSnoop (s : Cache p) (pkt : CachePacket) : Except CacheFailure (Snooped p) :=
  match s.findBlock pkt.addr pkt.secure with
  | none => .ok ⟨s, pkt, false⟩
  | some blk => do
    ensure (¬ (p.isReadOnly = true ∧ blk.dirty = true)) .dirtyInReadOnlyCache
    if pkt.evictingBlock then
      return ⟨s, pkt, true⟩
    else do
      let shares := !pkt.uncacheable && pkt.isRead && !pkt.isInvalidate
      ensure (shares = true → pkt.needsExclusive = false) .sharedReadNeedsExclusive
      let respond := blk.dirty && pkt.needsResponse && pkt.cmd != .invalidateReq
      let blk := if shares then { blk with writable := false } else blk
      let pkt := { pkt with shared := pkt.shared || shares, memInhibit := pkt.memInhibit || respond }
      -- `doTimingSupplyResponse`
      ensure (respond = true → pkt.uncacheable || pkt.isInvalidate || pkt.shared) .unsharedResponse
      return ⟨s.setBlock pkt.addr pkt.secure (if pkt.isInvalidate then none else some blk), pkt, false⟩

/-- `Cache::recvTimingSnoopReq`. A snoop that has to wait for a request under way, or takes over a waiting
Writeback, is left out. -/
def recvTimingSnoopReq (s : Cache p) (pkt : CachePacket) : Except CacheFailure (Snooped p) :=
  if (s.mshrQueue.findMatch (blockAlign p pkt.addr) pkt.secure).isSome ||
      !(s.writeBuffer.findMatches (blockAlign p pkt.addr) pkt.secure).isEmpty then
    if pkt.evictingBlock then .ok ⟨s, pkt, true⟩ else .error .requestUnderWay
  else s.handleSnoop pkt

end Cache

/-- The caches above a crossbar and the packets that it has passed on to memory, in order. -/
structure CoherentXBar (ι : Type) (p : CacheParams) where
  caches : ι → Cache p
  passed : List CachePacket

namespace CoherentXBar

variable {ι : Type} [DecidableEq ι] {p : CacheParams}

/-- `CoherentXBar::forwardTiming`: every destination but the source is snooped. -/
def forwardTiming (src : ι) : (ι → Cache p) → CachePacket → List ι →
    Except CacheFailure ((ι → Cache p) × CachePacket × Bool)
  | caches, pkt, [] => .ok (caches, pkt, false)
  | caches, pkt, d :: dests =>
    if d = src then forwardTiming src caches pkt dests
    else do
      let snooped ← (caches d).recvTimingSnoopReq pkt
      let (caches, pkt, blockCached) ← forwardTiming src (Function.update caches d snooped.cache) snooped.pkt dests
      return (caches, pkt, snooped.blockCached || blockCached)

/-- `CoherentXBar::recvTimingReq`, when the layer is free and memory takes the packet. -/
def recvTimingReq (x : CoherentXBar ι p) (src : ι) (dests : List ι) (pkt : CachePacket) :
    Except CacheFailure (CoherentXBar ι p) := do
  let (caches, pkt, blockCached) ← forwardTiming src x.caches pkt dests
  return ⟨caches, if pkt.cmd = .cleanEvict ∧ blockCached = true then x.passed else x.passed ++ [pkt]⟩

/-- A cache sends what is next. -/
def send (x : CoherentXBar ι p) (src : ι) (now : Nat) (dests : List ι) :
    Except CacheFailure (CoherentXBar ι p) := do
  let (s, _, pkt) ← (x.caches src).sendDeferredPacket now
  let x ← x.recvTimingReq src dests pkt
  return { x with caches := Function.update x.caches src s }

/-- A request comes to a cache. -/
def recv (x : CoherentXBar ι p) (src : ι) (env : CacheEnv) (forwardTime : Nat) (pkt : CachePacket) :
    Except CacheFailure (CoherentXBar ι p) := do
  let s ← (x.caches src).recvAtPort env forwardTime pkt
  return { x with caches := Function.update x.caches src s }

/-- A request comes to a cache, which then sends a number of times. -/
def issue (x : CoherentXBar ι p) (src : ι) (env : CacheEnv) (forwardTime : Nat) (pkt : CachePacket)
    (sends : List (Nat × List ι)) : Except CacheFailure (CoherentXBar ι p) := do
  let x ← x.recv src env forwardTime pkt
  runFrom (fun x e => x.send src e.1 e.2) x sends

end CoherentXBar

end MimdramLean
