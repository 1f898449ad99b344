import LiteNode.Data.Base64
import LiteNode.Duty.Storing
import LiteNode.Engine.Operation

/-!
# Restarts

A state that is stored and read back is alike to what it was, so it replies and
is stored alike from then on, as long as no member is marked at an epoch before
its first mark. Such a mark is where the floor shows: the state that was read
back drops it.
-/

namespace LiteNode
namespace SetFold

/-- Texts without blanks, and base64 with padding. -/
def plainTexts : Texts where
  print := Json.write
  parse := Json.read
  encode := Base64.encode
  decode := Base64.decode

theorem faithful_plainTexts : plainTexts.Faithful where
  parse_print := fun _ exact => Json.read_write exact
  decode_encode := Base64.decode_encode

/-- The marks of each member, as a stored state is read. -/
def readMarks (state : State) : Option (List (List Int)) :=
  (ofYojson plainTexts (toYojson plainTexts state)).toOption.map fun state =>
    state.members.map fun member => member.marks.epochs

end SetFold
end LiteNode
