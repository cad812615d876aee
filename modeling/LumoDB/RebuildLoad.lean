import LumoDB.Replay

namespace LumoDB
open ByteCodec Effects LinearProbing

section Growth
variable {maxLoadFactor : ℚ} {n items n' items' blocks : Nat}

end Growth

section Rebuild
variable {H : HashFunctions} {w : World} {log : RowLog}

/-- The blocks a scan of the shards `w` opens finds. -/
abbrev World.scanned (w : World) (log : RowLog) : RowLog := scanLog log 0 w.members.options.rowShardCount

end Rebuild

end LumoDB
