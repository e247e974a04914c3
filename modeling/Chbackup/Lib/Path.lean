import Chbackup.Lib.Lines

/-!
# Paths

A path is cut into segments at its slashes.  Along a path empty segments and dots stay, two dots go
up, and every other segment goes down.
-/

namespace Str

/-- The segments of a path between its slashes. -/
def segments (path : Str) : List Str := path.splitOn '/'

/-- A segment that stays where it is. -/
def isStay (segment : Str) : Bool := segment = [] || segment = ['.']

/-- The names along a path, as they stand: no empty segments and no dots. -/
def components (path : Str) : List Str := path.segments.filter fun segment => !isStay segment

/-- A segment that goes down. -/
def isNormal (segment : Str) : Bool := !isStay segment && segment ≠ ['.', '.']

end Str
