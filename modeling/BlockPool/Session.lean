import BlockPool.Config.Toml
import BlockPool.Session.Request

/-! Sessions. A session is a world in which the open pools, the held blocks and groups of held
blocks have names. It carries out requests by name and answers each with a reply or a fault, the
records made meanwhile, and the sizes in all pools that are open afterwards. -/

namespace BlockPool

structure Session where
  world : World := {}
  /-- The open pools, in order of their names. -/
  pools : List (String × PoolId) := []
  blocks : List (String × BlockId) := []
  groups : List (String × List BlockId) := []
  /-- Whether serials are told. They are not once a crew has worked in the session. -/
  serialsKnown : Bool := true

namespace Session

/-- An entry put where its name belongs. -/
def insertByName {α : Type} (name : String) (a : α) : List (String × α) → List (String × α)
  | [] => [(name, a)]
  | e :: rest => if name < e.1 then (name, a) :: e :: rest else e :: insertByName name a rest

def without {α : Type} (name : String) (entries : List (String × α)) : List (String × α) :=
  entries.filter (·.1 ≠ name)

/-- The serial of the chunk behind a held block, where serials are told. -/
def serial? (s : Session) (b : BlockId) : Option Nat :=
  if s.serialsKnown then (s.world.held.get? b).map (·.chunk.serial) else none

/-- A reply that says no more than that all went well. -/
def plain (r : Except Fault Unit) : Except Fault Reply := r.map fun _ => .done

/-- What is done with an open pool, if there is one of this name. -/
def withPool (s : Session) (pool : String) (f : PoolId → Except Fault Reply × Session) :
    Except Fault Reply × Session :=
  match s.pools.lookup pool with
  | none => (.error .noSuchPool, s)
  | some p => f p

/-- What is done with a held block, if there is one of this name. -/
def withBlock (s : Session) (block : String) (f : BlockId → Except Fault Reply × Session) :
    Except Fault Reply × Session :=
  match s.blocks.lookup block with
  | none => (.error .noSuchBlock, s)
  | some b => f b

/-- A question about an open pool, which changes nothing. -/
def ask (s : Session) (pool : String) (f : Pool → Reply) : Except Fault Reply × Session :=
  s.withPool pool fun p =>
    match s.world.pools.get? p with
    | none => (.error .noSuchPool, s)
    | some p => (.ok (f p), s)

/-- Opens a pool with the settings from a source. -/
def openFrom (w : World) (source : ConfigSource) : Except Fault PoolId × World :=
  match source with
  | .given config => w.openPool config
  | .named name => w.openPool (.named name)
  | .toml text =>
    match Config.ofToml text with
    | .error problem => (.error (.refused problem.toError), w)
    | .ok config => w.openPool config
  | .standard =>
    let (p, w) := w.enter .standard
    (.ok p, w)

def create (s : Session) (pool : String) (source : ConfigSource) : Except Fault Reply × Session :=
  if (s.pools.lookup pool).isSome then (.error .poolExists, s)
  else
    match openFrom s.world source with
    | (.error fault, world) => (.error fault, { s with world })
    | (.ok p, world) =>
      let s := { s with world, pools := insertByName pool p s.pools }
      s.ask pool fun p => .opened p.config

/-- The bytes of a held block. -/
def payload (s : Session) (b : BlockId) : Payload := (s.world.bytes? b).getD .empty

def alloc (s : Session) (pool block : String) (size : Nat) : Except Fault Reply × Session :=
  s.withPool pool fun p =>
    if (s.blocks.lookup block).isSome then (.error .blockExists, s)
    else
      match s.world.alloc p size with
      | (.error fault, world) => (.error fault, { s with world })
      | (.ok b, world) =>
        let s := { s with world, blocks := (block, b) :: s.blocks }
        (.ok (.issued (s.serial? b) (s.payload b)), s)

def free (s : Session) (pool block : String) : Except Fault Reply × Session :=
  s.withPool pool fun p => s.withBlock block fun b =>
    let (r, world) := s.world.free p b
    (plain r, { s with world, blocks := without block s.blocks })

def release (s : Session) (block : String) : Except Fault Reply × Session :=
  s.withBlock block fun b =>
    (.ok .done, { s with world := s.world.release b, blocks := without block s.blocks })

def write (s : Session) (block : String) (offset : Nat) (data : Payload) :
    Except Fault Reply × Session :=
  s.withBlock block fun b =>
    let (r, world) := s.world.write b offset data
    (plain r, { s with world })

def fill (s : Session) (block : String) (byte : UInt8) : Except Fault Reply × Session :=
  s.withBlock block fun b => s.write block 0 (.filled (s.payload b).size byte)

def read (s : Session) (block : String) (offset len : Nat) : Except Fault Reply × Session :=
  s.withBlock block fun b =>
    if offset + len ≤ (s.payload b).size then
      (.ok (.bytes (Payload.slice (s.payload b) offset len)), s)
    else (.error .outOfRange, s)

def info (s : Session) (block : String) : Except Fault Reply × Session :=
  s.withBlock block fun b =>
    let payload := s.payload b
    (.ok (.info {
      len := payload.size
      isEmpty := payload.size = 0
      sum := Payload.sum payload
      inspect := "Block \x7b len: " ++ toString payload.size ++ ", ptr: PTR \x7d"
      belongsTo := s.pools.map fun (name, p) => (name, s.world.belongsTo b p) }), s)

def clear (s : Session) (pool : String) (eraseVacant : Bool) : Except Fault Reply × Session :=
  s.withPool pool fun p =>
    let (r, world) := s.world.clear p eraseVacant
    (plain r, { s with world })

def tearDown (s : Session) (pool : String) (during : List String) (withReceipt : Bool) :
    Except Fault Reply × Session :=
  s.withPool pool fun p =>
    match during.mapM fun block => s.blocks.lookup block with
    | none => (.error .noSuchBlock, s)
    | some bs =>
      match s.world.tearDown p bs with
      | (.error fault, world) => (.error fault, { s with world })
      | (.ok r, world) =>
        (.ok (if withReceipt then .receipt r else .done),
          { s with
            world
            pools := without pool s.pools
            blocks := s.blocks.filter fun e => !during.contains e.1 })

/-- The serials of a batch, where they are told. -/
def batchReply (s : Session) (bs : List BlockId) : Reply :=
  .batch (bs.head?.bind s.serial?) (bs.getLast?.bind s.serial?)
    ((bs.filterMap s.serial?).foldl (· + ·) 0)

/-- Obtains a batch. What was obtained before a failure stays in the group. -/
def allocMany (s : Session) (pool group : String) (size count : Nat) :
    Except Fault Reply × Session :=
  s.withPool pool fun p =>
    let batch := Batch.extend { world := s.world } p size count
    let bs := batch.blocks.toList
    let groups :=
      if bs.isEmpty then s.groups
      else (group, (s.groups.lookup group).getD [] ++ bs) :: without group s.groups
    let s := { s with world := batch.world, groups }
    match batch.fault with
    | some fault => (.error fault, s)
    | none => (.ok (s.batchReply bs), s)

def freeMany (s : Session) (pool group : String) (order : Order) : Except Fault Reply × Session :=
  s.withPool pool fun p =>
    match s.groups.lookup group with
    | none => (.error .noSuchGroup, s)
    | some bs =>
      let (refusals, world) := s.world.freeAll p (order.arrange bs)
      (.ok (.refusals refusals), { s with world, groups := without group s.groups })

def churn (s : Session) (pool : String) (size count : Nat) : Except Fault Reply × Session :=
  s.withPool pool fun p =>
    let (r, world) := s.world.churn p size none count
    (r.map fun n => .serial (if s.serialsKnown then n else none), { s with world })

def employ (s : Session) (pool : String) (crew : Crew) : Except Fault Reply × Session :=
  s.withPool pool fun p =>
    let (granted, world) := s.world.employAll p crew
    (.ok (.number granted), { s with world, serialsKnown := false })

/-- Carries out one request. -/
def perform (s : Session) : Request → Except Fault Reply × Session
  | .create pool source => s.create pool source
  | .alloc pool block size => s.alloc pool block size
  | .allocFor pool block kind => s.alloc pool block kind.size
  | .free pool block => s.free pool block
  | .release block => s.release block
  | .write block offset data => s.write block offset data
  | .fill block byte => s.fill block byte
  | .read block offset len => s.read block offset len
  | .info block => s.info block
  | .clear pool eraseVacant => s.clear pool eraseVacant
  | .tearDown pool during withReceipt => s.tearDown pool during withReceipt
  | .contains pool size => s.ask pool fun p => .flag (p.classes.contains size)
  | .count pool => s.ask pool fun p => .number p.classes.size
  | .inspect pool => s.ask pool fun p => .inspected p.inspect p.inspectLines
  | .allocMany pool group size count => s.allocMany pool group size count
  | .freeMany pool group order => s.freeMany pool group order
  | .churn pool size count => s.churn pool size count
  | .employ pool crew => s.employ pool crew

/-- What one request is answered. -/
structure Outcome where
  reply : Except Fault Reply
  /-- The records made meanwhile; those of a crew are not told. -/
  records : Array Record
  /-- The sizes in every open pool, by name. -/
  sizes : List (String × List Nat)

/-- The sizes in every open pool, by name. -/
def sizes (s : Session) : List (String × List Nat) :=
  s.pools.map fun (name, p) => (name, ((s.world.pools.get? p).map (·.sizes)).getD [])

/-- The records that a world has made since its log had this length. -/
def recordsSince (length : Nat) (w : World) : Array Record := w.log.extract length

def step (s : Session) (request : Request) : Outcome × Session :=
  let length := s.world.log.size
  let (reply, s) := s.perform request
  let records := match request with
    | .employ _ _ => #[]
    | _ => recordsSince length s.world
  ({ reply, records, sizes := s.sizes }, s)

def run (s : Session) : List Request → List Outcome × Session
  | [] => ([], s)
  | request :: rest =>
    let (outcome, s) := s.step request
    let (outcomes, s) := s.run rest
    (outcome :: outcomes, s)

/-- The end of a session: the open pools are torn down in order of their names while the blocks are
still held, and then all blocks are released. Answers the receipt and the records of every pool, and
the records made by the last releases. -/
def finish (s : Session) : List (String × Receipt × Array Record) × Array Record :=
  let (receipts, w) := s.pools.foldl (fun (receipts, w) (name, p) =>
    let length := w.log.size
    match w.tearDown p [] with
    | (.ok r, w) => ((name, r, recordsSince length w) :: receipts, w)
    | (.error _, w) => (receipts, w)) ([], s.world)
  let last := w.held.handles.foldl World.release w
  (receipts.reverse, recordsSince w.log.size last)

end Session

end BlockPool
