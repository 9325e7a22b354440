import Mathlib.Data.List.Infix
import Mathlib.Data.List.Perm.Basic
import Freeminer.Util.Stream

/-! `Settings` (`settings.cpp`): values and groups by name, the text that is written of them and
what is parsed of a text. -/

namespace Freeminer

open Lib

/-- A map of settings, in the order in which it is gone through. -/
inductive Settings where
  | nil
  | value (name value : ByteString) (rest : Settings)
  | group (name : ByteString) (group rest : Settings)
  deriving DecidableEq

inductive SettingsEntry where
  | value (value : ByteString)
  | group (group : Settings)
  deriving DecidableEq

inductive SettingsParseEvent where
  | none
  | invalid
  | comment
  | kvPair (name value : ByteString)
  | endTag
  | group (name : ByteString)
  | multiline (name : ByteString)
  deriving DecidableEq

def quotes : ByteString := [34, 34, 34]

/-- None of the characters for an assignment, a quote, a group and a comment, and no blank. -/
def checkNameValid (name : ByteString) : Bool :=
  name.all (fun c => c ≠ 61 && c ≠ 34 && c ≠ 123 && c ≠ 125 && c ≠ 35) && name.all (!isSpace ·)

def checkValueValid (value : ByteString) : Bool :=
  !(value.take 3 = quotes || decide ((10 :: quotes) <:+: value))

def parseConfigObject (endTag line : ByteString) : SettingsParseEvent :=
  match trim line with
  | [] => .none
  | c :: cs =>
    if c = 35 then .comment
    else if c :: cs = endTag then .endTag
    else
      match cut 61 (c :: cs) with
      | (_, none) => .invalid
      | (before, some after) =>
        if trim after = [123] then .group (trim before)
        else if trim after = quotes then .multiline (trim before)
        else .kvPair (trim before) (trim after)

/-- The loop of `getMultiline`, over the lines that are left in the stream. -/
def multilineLoop : List ByteString → ByteString × List ByteString
  | [] => ([], [])
  | line :: lines =>
    if line = quotes then ([], lines)
    else (line ++ 10 :: (multilineLoop lines).1, (multilineLoop lines).2)

def getMultiline (lines : List ByteString) : ByteString × List ByteString :=
  ((multilineLoop lines).1.dropLast, (multilineLoop lines).2)

namespace Settings

def entries : Settings → List (ByteString × SettingsEntry)
  | nil => []
  | value name v rest => (name, .value v) :: entries rest
  | group name g rest => (name, .group g) :: entries rest

def names (s : Settings) : List ByteString := s.entries.map Prod.fst

def find (s : Settings) (name : ByteString) : Option SettingsEntry := s.entries.lookup name

def cons (name : ByteString) : SettingsEntry → Settings → Settings
  | .value v, rest => value name v rest
  | .group g, rest => group name g rest

/-- `m_settings[name] = entry` -/
def put (name : ByteString) (entry : SettingsEntry) : Settings → Settings
  | nil => cons name entry nil
  | value m v rest => if m = name then cons name entry rest else value m v (put name entry rest)
  | group m g rest => if m = name then cons name entry rest else group m g (put name entry rest)

def set (s : Settings) (name v : ByteString) : Option Settings :=
  if checkNameValid name && checkValueValid v then some (s.put name (.value v)) else none

def setGroup (s : Settings) (name : ByteString) (g : Settings) : Option Settings :=
  if checkNameValid name then some (s.put name (.group g)) else none

/-- What accepted calls of `set` and `setGroup` build; nothing is said about the order of the
entries of a map. -/
inductive Built : Settings → Prop
  | empty : Built nil
  | set {s t : Settings} {name v : ByteString} : Built s → s.set name v = some t → Built t
  | setGroup {s t g : Settings} {name : ByteString} : Built s → Built g →
    s.setGroup name g = some t → Built t
  | reorder {s t : Settings} : Built s → s.entries.Perm t.entries → Built t

def lookup (s : Settings) : List ByteString → Option (Option ByteString)
  | [] => some none
  | name :: path =>
    match s.find name with
    | none => none
    | some (.value v) => if path = [] then some (some v) else none
    | some (.group g) => lookup g path

def Same (s t : Settings) : Prop := ∀ path, s.lookup path = t.lookup path

/-- `parseConfigLines` on the lines that are left in the stream: whether the end tag was found, the
settings, and the lines left after it. Each step reads a line, so `fuel` is more than the lines. -/
def parseLoop : ℕ → ByteString → Settings → List ByteString →
    Bool × Settings × List ByteString
  | 0, _, s, lines => (false, s, lines)
  | _ + 1, endTag, s, [] => (endTag.isEmpty, s, [])
  | fuel + 1, endTag, s, line :: lines =>
    match parseConfigObject endTag line with
    | .none => parseLoop fuel endTag s lines
    | .invalid => parseLoop fuel endTag s lines
    | .comment => parseLoop fuel endTag s lines
    | .kvPair name v => parseLoop fuel endTag (s.put name (.value v)) lines
    | .endTag => (true, s, lines)
    | .group name =>
      match parseLoop fuel [125] nil lines with
      | (false, _, rest) => (false, s, rest)
      | (true, g, rest) => parseLoop fuel endTag (s.put name (.group g)) rest
    | .multiline name =>
      parseLoop fuel endTag (s.put name (.value (getMultiline lines).1)) (getMultiline lines).2

def parseConfigLines (endTag : ByteString) (s : Settings) (lines : List ByteString) :
    Bool × Settings × List ByteString :=
  parseLoop (lines.length + 1) endTag s lines

def parse (text : ByteString) : Bool × Settings :=
  let r := parseConfigLines [] nil (text.splitOn 10)
  (r.1, r.2.1)

def tabs (tabDepth : ℕ) : ByteString := List.replicate tabDepth 9

def printValue (name v : ByteString) (tabDepth : ℕ) : ByteString :=
  tabs tabDepth ++ name ++ bytes " = " ++
    if 10 ∈ v then quotes ++ 10 :: v ++ 10 :: quotes ++ [10] else v ++ [10]

/-- `writeLines` without the end tag; a group is written with its end tag. -/
def writeLines : Settings → ℕ → ByteString
  | nil, _ => []
  | value name v rest, tabDepth => printValue name v tabDepth ++ writeLines rest tabDepth
  | group name g rest, tabDepth =>
    tabs tabDepth ++ name ++ bytes " = " ++ [123, 10] ++
      (writeLines g (tabDepth + 1) ++ tabs (tabDepth + 1) ++ [125, 10]) ++
      writeLines rest tabDepth

end Settings

end Freeminer
