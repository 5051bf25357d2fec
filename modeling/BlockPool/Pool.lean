import BlockPool.ClassTable
import BlockPool.Config
import BlockPool.Registry

/-! Pools and the blocks that they hand out. A block is a chunk in use together with the handle of
the pool that it came from; it can outlive that pool. -/

namespace BlockPool

structure Pool where
  config : Config
  classes : ClassTable := {}
  deriving DecidableEq, Inhabited

abbrev PoolId := Handle Pool

structure Block where
  chunk : Chunk
  pool : PoolId
  deriving DecidableEq, Inhabited

abbrev BlockId := Handle Block

namespace Pool

/-- The sizes of the classes, ascending. -/
def sizes (p : Pool) : List Nat := p.classes.sizes

def inspect (p : Pool) : String :=
  "MemCache \x7b name: " ++ Text.quote p.config.name ++ ", buckets: [" ++
    ", ".intercalate (p.sizes.map toString) ++ "] \x7d"

/-- The inspection text with every field and every size on a line of its own. -/
def inspectLines (p : Pool) : String :=
  "MemCache \x7b\n    name: " ++ Text.quote p.config.name ++ ",\n    buckets: [" ++
    (if p.sizes.isEmpty then ""
      else
        "\n" ++ String.join (p.sizes.map fun n => "        " ++ toString n ++ ",\n") ++ "    ") ++
    "],\n\x7d"

end Pool

end BlockPool
