import UserManagedAccess.Settings.Tree
import UserManagedAccess.Toml.Moment
import UserManagedAccess.Toml.Number

/-! TOML documents as setting trees. A key is defined once: a table is opened by one header, and
only the lines below its header and the headers of its subtables add to it. -/
namespace UserManagedAccess.Toml

/-- A table that is being read: which of its values may still grow, and how. -/
inductive Node where
  /-- A value that is complete. -/
  | value (tree : SettingTree)
  /-- A table made by keys with dots; further such keys add to it. -/
  | dotted (entries : List (String × Node))
  /-- A table of headers; `opened` if it had a header of its own. -/
  | table (opened : Bool) (entries : List (String × Node))
  /-- A list of tables; headers below it add to the last. -/
  | tables (items : List (List (String × Node)))

namespace Node

mutual

def toTree : Node → SettingTree
  | .value tree => tree
  | .dotted entries => .table (toEntries entries)
  | .table _ entries => .table (toEntries entries)
  | .tables items => .list (toItems items)

def toEntries : List (String × Node) → List (String × SettingTree)
  | [] => []
  | (name, node) :: rest => KeyMap.insertEntry name node.toTree (toEntries rest)

def toItems : List (List (String × Node)) → List SettingTree
  | [] => []
  | item :: rest => .table (toEntries item) :: toItems rest

end

/-- Changes the last item of a list. -/
def changeLast (change : List (String × Node) → Option (List (String × Node)))
    (items : List (List (String × Node))) : Option (List (List (String × Node))) :=
  match items.reverse with
  | [] => none
  | last :: before => (change last).map fun last => (last :: before).reverse

/-- Defines the value of a key with dots. -/
def define : (path : List String) → SettingTree → List (String × Node) →
    Option (List (String × Node))
  | [], _, _ => none
  | [name], tree, entries =>
    if (KeyMap.findEntry name entries).isSome then none
    else some (KeyMap.insertEntry name (.value tree) entries)
  | name :: path, tree, entries =>
    let put (below : List (String × Node)) : Option (List (String × Node)) :=
      (define path tree below).map fun below => KeyMap.insertEntry name (.dotted below) entries
    match KeyMap.findEntry name entries with
    | none => put []
    | some (.dotted below) => put below
    | some _ => none

/-- Goes down a path of headers and changes the table at its end with `change`; `last` says what
the table at the end has to become before. -/
def descend (last : Option Node → Option Node)
    (change : List (String × Node) → Option (List (String × Node))) :
    (path : List String) → List (String × Node) → Option (List (String × Node))
  | [], entries => change entries
  | name :: path, entries =>
    let found := KeyMap.findEntry name entries
    let found := if path.isEmpty then last found else found <|> some (.table false [])
    let below := descend last change path
    match found with
    | some (.table opened inside) =>
      (below inside).map fun inside => KeyMap.insertEntry name (.table opened inside) entries
    | some (.tables items) =>
      (changeLast below items).map fun items => KeyMap.insertEntry name (.tables items) entries
    | _ => none

/-- What a header makes of the place it names: a table that had none, or one more item of a list. -/
def opened (list : Bool) (found : Option Node) : Option Node :=
  match list, found with
  | false, none => some (.table true [])
  | false, some (.table false entries) => some (.table true entries)
  | true, none => some (.tables [[]])
  | true, some (.tables items) => some (.tables (items ++ [[]]))
  | _, _ => none

end Node

/-! ## Reading -/

def isBareChar (c : Char) : Bool := c.isAlphanum || c = '_' || c = '-'

def isWordChar (c : Char) : Bool := isBareChar c || c = '.' || c = ':' || c = '+'

/-- What follows a comment, or nothing but blanks, up to the end of the line. -/
def endOfLine? (text : List Char) : Option (List Char) :=
  let rest := match skipBlanks text with
    | '#' :: rest => rest.dropWhile fun c => c = '\t' || ' ' ≤ c
    | rest => rest
  match rest with
  | [] => some []
  | '\n' :: rest => some rest
  | _ => none

/-- One name of a key. -/
def name? : List Char → Option (String × List Char)
  | [] => none
  | c :: rest =>
    if isQuote c then
      if rest.take 2 = [c, c] then none else lineText? c rest
    else
      let name := (c :: rest).takeWhile isBareChar
      if name.isEmpty then none
      else some (String.ofList name, (c :: rest).dropWhile isBareChar)

/-- The names of a key, with blanks around the dots, and what follows the blanks after it. -/
def key? : (fuel : Nat) → List Char → Option (List String × List Char)
  | 0, _ => none
  | fuel + 1, text =>
    match name? (skipBlanks text) with
    | none => none
    | some (name, rest) =>
      match skipBlanks rest with
      | '.' :: rest => (key? fuel rest).map fun (names, rest) => (name :: names, rest)
      | rest => some ([name], rest)

/-- A key and its equals sign. -/
def assigned? (text : List Char) : Option (List String × List Char) :=
  match key? (text.length + 1) text with
  | some (names, '=' :: rest) => some (names, skipBlanks rest)
  | _ => none

/-- Passes over blanks, comments and line ends. -/
def skipLines? : (fuel : Nat) → List Char → Option (List Char)
  | 0, _ => none
  | fuel + 1, text =>
    match skipBlanks text with
    | '\n' :: rest => skipLines? fuel rest
    | '#' :: rest => (endOfLine? ('#' :: rest)).bind (skipLines? fuel)
    | rest => some rest

/-- What a word without quotes stands for. -/
def scalar? (word : List Char) : Option SettingTree :=
  if word = "true".toList then some (.bool true)
  else if word = "false".toList then some (.bool false)
  else
    match number? word with
    | some (.whole n) => some (.whole n)
    | some (.real x) => some (.real x)
    | none => (moment? word).map fun moment => .text (String.ofList moment)

/-- A word without quotes; after a date a time of day may follow, one blank apart. -/
def word? (text : List Char) : Option (SettingTree × List Char) :=
  let word := text.takeWhile isWordChar
  let rest := text.dropWhile isWordChar
  let whole := match date? word, rest with
    | some (_, []), ' ' :: more => some (word ++ ' ' :: more.takeWhile isWordChar, more)
    | _, _ => none
  match whole with
  | some (moment, more) =>
    if moment.length = word.length + 1 then (scalar? word).map (·, rest)
    else (scalar? moment).map (·, more.dropWhile isWordChar)
  | none => (scalar? word).map (·, rest)

mutual

def value? : (fuel : Nat) → List Char → Option (SettingTree × List Char)
  | 0, _ => none
  | _, [] => none
  | fuel + 1, c :: rest =>
    if isQuote c then (text? c rest).map fun (s, rest) => (.text s, rest)
    else if c = '[' then (items? fuel rest).map fun (items, rest) => (.list items, rest)
    else if c = '\x7b' then
      match skipBlanks rest with
      | '\x7d' :: rest => some (.table [], rest)
      | rest =>
        (members? fuel [] rest).map fun (members, rest) => (.table (Node.toEntries members), rest)
    else word? (c :: rest)

/-- The items of a list up to its closing bracket. -/
def items? : (fuel : Nat) → List Char → Option (List SettingTree × List Char)
  | 0, _ => none
  | fuel + 1, text => do
    match ← skipLines? (text.length + 1) text with
    | ']' :: rest => return ([], rest)
    | rest =>
      let (item, rest) ← value? fuel rest
      match ← skipLines? (rest.length + 1) rest with
      | ',' :: rest =>
        let (items, rest) ← items? fuel rest
        return (item :: items, rest)
      | ']' :: rest => return ([item], rest)
      | _ => none

/-- The members of a table on one line up to its closing brace. -/
def members? : (fuel : Nat) → List (String × Node) → List Char →
    Option (List (String × Node) × List Char)
  | 0, _, _ => none
  | fuel + 1, members, text => do
    let (path, rest) ← assigned? text
    let (value, rest) ← value? fuel rest
    let members ← Node.define path value members
    match skipBlanks rest with
    | '\x7d' :: rest => return (members, rest)
    | ',' :: rest => members? fuel members rest
    | _ => none

end

/-- A header up to the end of its line, after its opening bracket: whether it heads an item of a
list, and the names of its path. -/
def header? (text : List Char) : Option (Bool × List String × List Char) := do
  let (list, text) := match text with
    | '[' :: rest => (true, rest)
    | text => (false, text)
  let (path, rest) ← key? (text.length + 1) text
  match list, rest with
  | true, ']' :: ']' :: rest => return (true, path, ← endOfLine? rest)
  | false, ']' :: rest => return (false, path, ← endOfLine? rest)
  | _, _ => none

/-- Reads the lines of a document; `path` is the header they stand below. -/
def lines : (fuel : Nat) → (path : List String) → List (String × Node) → List Char →
    Option (List (String × Node))
  | 0, _, _, _ => none
  | fuel + 1, path, root, text => do
    match ← skipLines? (text.length + 1) text with
    | [] => return root
    | '[' :: rest =>
      let (list, path, rest) ← header? rest
      lines fuel path (← Node.descend (Node.opened list) some path root) rest
    | rest =>
      let (names, rest) ← assigned? rest
      let (value, rest) ← value? (2 * rest.length + 2) rest
      let rest ← endOfLine? rest
      lines fuel path (← Node.descend id (Node.define names value) path root) rest

/-- A carriage return before a line end belongs to it. -/
def joinLineEnds : List Char → List Char
  | '\r' :: '\n' :: rest => '\n' :: joinLineEnds rest
  | c :: rest => c :: joinLineEnds rest
  | [] => []

/-- The entries of a document. A mark of byte order may stand at its front. -/
def entries? (text : String) : Option (List (String × SettingTree)) :=
  let text := match text.toList with
    | '\uFEFF' :: rest => joinLineEnds rest
    | text => joinLineEnds text
  (lines (text.length + 1) [] [] text).map Node.toEntries

end UserManagedAccess.Toml
