import BuildTree.Bytes

/-!
# UTF-8 — decoding octets that may not be text

A machine fed one octet at a time.  It holds the octets still owed to the current character and
the range the next octet has to be in, so a sequence is refused at the first octet that rules it
out.  The refused octets count as one malformed run, and the octet that broke them starts anew.
Strict decoding wants no malformed run; lossy decoding shows each run as U+FFFD.
-/

namespace BuildTree
namespace Utf8

/-- Where the machine stands between two octets. -/
inductive State
  | start
  /-- Inside a character: `owed + 1` octets are missing, the next one lies in `low..high`, and
  `code` holds the bits read so far. -/
  | inside (owed : Nat) (code : Nat) (low high : UInt8)
  deriving DecidableEq, Repr

/-- What the machine reads: a character, or a malformed run. -/
inductive Item
  | char (c : Char)
  | malformed
  deriving DecidableEq, Repr

/-- An octet read between characters. -/
def first (b : UInt8) : List Item × State :=
  if b < 0x80 then ([.char (Char.ofNat b.toNat)], .start)
  else if b < 0xC2 then ([.malformed], .start)
  else if b < 0xE0 then ([], .inside 0 (b.toNat - 0xC0) 0x80 0xBF)
  else if b < 0xF0 then
    ([], .inside 1 (b.toNat - 0xE0) (if b = 0xE0 then 0xA0 else 0x80)
      (if b = 0xED then 0x9F else 0xBF))
  else if b < 0xF5 then
    ([], .inside 2 (b.toNat - 0xF0) (if b = 0xF0 then 0x90 else 0x80)
      (if b = 0xF4 then 0x8F else 0xBF))
  else ([.malformed], .start)

/-- One octet: what it completes and the state after it. -/
def step : State → UInt8 → List Item × State
  | .start, b => first b
  | .inside owed code low high, b =>
      if low ≤ b ∧ b ≤ high then
        let code := code * 64 + (b.toNat - 0x80)
        match owed with
        | 0 => ([.char (Char.ofNat code)], .start)
        | owed + 1 => ([], .inside owed code 0x80 0xBF)
      else
        let (items, state) := first b
        (.malformed :: items, state)

/-- The items of a byte string read from a state.  A character left unfinished is malformed. -/
def itemsFrom : State → Bytes → List Item
  | .start, [] => []
  | .inside .., [] => [.malformed]
  | state, b :: bs =>
      let (items, next) := step state b
      items ++ itemsFrom next bs

def items (bs : Bytes) : List Item :=
  itemsFrom .start bs

/-- The text of a byte string, if it is UTF-8 throughout. -/
def decode? (bs : Bytes) : Option String :=
  (go (items bs)).map String.ofList
where
  go : List Item → Option (List Char)
    | [] => some []
    | .char c :: rest => (go rest).map (c :: ·)
    | .malformed :: _ => none

/-- The text of a byte string with U+FFFD for each malformed run. -/
def decodeLossy (bs : Bytes) : String :=
  String.ofList ((items bs).map fun
    | .char c => c
    | .malformed => '\ufffd')

end Utf8
end BuildTree
