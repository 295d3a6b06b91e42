import PullAuth.Json.Reader

/-!
How deep texts and values are nested. A reader has room for so many open brackets: at the first one
that there is no room for it gives up, unless it has come to something malformed before.
-/
namespace PullAuth.Json

/-- Why a text is not read. -/
inductive Fault where
  | malformed
  /-- More brackets are open at once than there is room for. -/
  | tooDeep
  deriving DecidableEq

/-- The most brackets that may be open at once. -/
def levelLimit : Nat := 980

mutual

/-- Whether the reading of a value comes to an opening bracket that there is no room for. -/
def valueOverflows : Nat → Nat → Text → Bool
  | 0, _, _ => false
  | _ + 1, _, [] => false
  | fuel + 1, room, c :: t =>
    if c = '[' then
      match room with
      | 0 => true
      | room + 1 => itemsOverflow fuel room (skipSpace t)
    else if c = '{' then
      match room with
      | 0 => true
      | room + 1 => membersOverflow fuel room (skipSpace t)
    else false

/-- Whether the reading of items does: in the first one, or behind it. -/
def itemsOverflow : Nat → Nat → Text → Bool
  | 0, _, _ => false
  | fuel + 1, room, t =>
    valueOverflows fuel room t ||
      match readValue fuel t with
      | none => false
      | some (_, rest) =>
        match skipSpace rest with
        | [] => false
        | d :: rest => d = ',' && itemsOverflow fuel room (skipSpace rest)

/-- Whether the reading of members does: in the first value, or behind it. -/
def membersOverflow : Nat → Nat → Text → Bool
  | 0, _, _ => false
  | _ + 1, _, [] => false
  | fuel + 1, room, q :: t =>
    if q ≠ '"' then false
    else match readString t with
      | none => false
      | some (_, rest) =>
        match skipSpace rest with
        | [] => false
        | d :: rest =>
          if d ≠ ':' then false
          else
            valueOverflows fuel room (skipSpace rest) ||
              match readValue fuel (skipSpace rest) with
              | none => false
              | some (_, rest) =>
                match skipSpace rest with
                | [] => false
                | d :: rest => d = ',' && membersOverflow fuel room (skipSpace rest)

end

/-- Whether a text is nested too deep to be read. -/
def isTooDeep (t : Text) : Bool := valueOverflows (2 * t.length + 2) levelLimit (skipSpace t)

/-- The value of a text that there is room for. -/
def read (t : Text) : Except Fault Json :=
  if isTooDeep t then .error .tooDeep
  else match read? t with
    | some value => .ok value
    | none => .error .malformed

mutual

/-- How many arrays and objects a value has inside each other at most, with itself. -/
def levels : Json → Nat
  | array items => itemsLevels items + 1
  | object members => membersLevels members + 1
  | _ => 0

def itemsLevels : List Json → Nat
  | [] => 0
  | item :: rest => max (levels item) (itemsLevels rest)

def membersLevels : List (Text × Json) → Nat
  | [] => 0
  | (_, value) :: rest => max (levels value) (membersLevels rest)

end

end PullAuth.Json
