/-!
The words of a command line: options, which begin with a dash, and the others, which mean something
by their place. The word `--` ends the options. A word that asks for help is no error by itself, but
the words around it must still be right.
-/
namespace CxxSymbols.Command

inductive Taking where
  | nothing
  /- the next word, and the option is given once at most -/
  | word
  /- the next word, each time -/
  | eachWord
  deriving DecidableEq, Repr, Inhabited

structure Switch where
  name : String
  short : Option String := none
  taking : Taking := .nothing
  about : String
  deriving DecidableEq, Repr, Inhabited

inductive Occurrence where
  | once
  | optional
  | rest
  deriving DecidableEq, Repr, Inhabited

structure Place where
  name : String
  occurrence : Occurrence := .once
  about : String
  deriving DecidableEq, Repr, Inhabited

/- What may be on a line. A place that takes the rest is the last one. -/
structure Grammar where
  switches : List Switch := []
  places : List Place := []
  deriving DecidableEq, Repr, Inhabited

inductive UsageError where
  | unknownWord (word : String)
  | missingValue (switch : String)
  | repeated (switch value : String)
  | optionAfterHelp
  | badAddress (name word : String)
  | missing (names : List String)
  | missingCommand (names : List String)
  deriving DecidableEq, Repr, Inhabited

def UsageError.message : UsageError → String
  | unknownWord word => "Unrecognized argument: " ++ word
  | missingValue switch => "No value provided for option '" ++ switch ++ "'."
  | repeated switch value =>
    "Error parsing option '" ++ switch ++ "' with value '" ++ value ++
      "': duplicate values provided"
  | optionAfterHelp => "Trailing arguments are not allowed after `help`."
  | badAddress name word =>
    "Error parsing positional argument '" ++ name ++ "' with value '" ++ word ++
      "': invalid address `" ++ word ++ "`"
  | missing names =>
    "Required positional arguments not provided:\n    " ++ "\n    ".intercalate names
  | missingCommand names =>
    "One of the following subcommands must be present:\n    " ++ "\n    ".intercalate names

structure Line where
  asksHelp : Bool := false
  isPlain : Bool := false
  options : List (String × String) := []
  words : List String := []
  deriving DecidableEq, Repr, Inhabited

namespace Line

def has (l : Line) (switch : String) : Bool := l.options.any fun (name, _) => name = switch

def values (l : Line) (switch : String) : List String :=
  (l.options.filter fun (name, _) => name = switch).map Prod.snd

def value? (l : Line) (switch : String) : Option String := l.options.lookup switch

end Line

def helpWords : List String := ["--help", "help"]

def helpLine (name about : String) : String :=
  let start := "  " ++ name
  if start.length < 20 then start ++ "".pushn ' ' (20 - start.length) ++ about
  else start ++ "\n" ++ "".pushn ' ' 20 ++ about

def Switch.label (s : Switch) : String := (s.short.elim "" (· ++ ", ")) ++ s.name

def Switch.brief (s : Switch) : String :=
  let name := s.short.getD s.name
  let value := if s.taking = .nothing then "" else " <" ++ (s.name.drop 2).toString ++ ">"
  "[" ++ name ++ value ++ (if s.taking = .eachWord then "...]" else "]")

def Place.brief (p : Place) : String :=
  match p.occurrence with
  | .once => "<" ++ p.name ++ ">"
  | .optional => "[<" ++ p.name ++ ">]"
  | .rest => "[" ++ p.name ++ "...]"

namespace Grammar

def switch? (g : Grammar) (word : String) : Option Switch :=
  g.switches.find? fun s => s.name = word ∨ s.short = some word

def addWord (g : Grammar) (l : Line) (word : String) : Except UsageError Line :=
  let takesRest (p : Place) := p.occurrence = .rest
  match g.places[l.words.length]?, g.places.getLast? with
  | some p, _ =>
    .ok { l with words := l.words ++ [word], isPlain := l.isPlain || decide (takesRest p) }
  | none, some p =>
    if takesRest p then .ok { l with words := l.words ++ [word] } else .error (.unknownWord word)
  | none, none => .error (.unknownWord word)

def addOption (l : Line) (s : Switch) (value : String) : Except UsageError Line :=
  if s.taking = .word ∧ l.has s.name then .error (.repeated s.name value)
  else .ok { l with options := l.options ++ [(s.name, value)] }

/- Reads the words of a line from left to right. The first that is wrong decides the error. -/
def readFrom (g : Grammar) (l : Line) : List String → Except UsageError Line
  | [] => .ok l
  | word :: rest =>
    if l.isPlain || !(word.startsWith "-" || helpWords.contains word) then do
      readFrom g (← g.addWord l word) rest
    else if helpWords.contains word then readFrom g { l with asksHelp := true } rest
    else if word = "--" then readFrom g { l with isPlain := true } rest
    else if l.asksHelp then .error .optionAfterHelp
    else
      match g.switch? word with
      | none => .error (.unknownWord word)
      | some s =>
        if s.taking = .nothing then do readFrom g (← addOption l s "") rest
        else
          match rest with
          | [] => .error (.missingValue word)
          | value :: rest => do readFrom g (← addOption l s value) rest

def read (g : Grammar) (words : List String) : Except UsageError Line := g.readFrom {} words

def unfilled (g : Grammar) (l : Line) : List String :=
  ((g.places.drop l.words.length).filter (·.occurrence = .once)).map Place.name

def usage (g : Grammar) (names : List String) (about : String) : List String :=
  let head := " ".intercalate
    (("Usage:" :: names) ++ g.places.map Place.brief ++ g.switches.map Switch.brief)
  let places :=
    if g.places.isEmpty then []
    else ["", "Positional Arguments:"] ++ g.places.map fun p => helpLine p.name p.about
  [head, "", about] ++ places ++ ["", "Options:"] ++
    (g.switches.map fun s => helpLine s.label s.about) ++
    [helpLine (", ".intercalate helpWords) "display usage information"]

end Grammar

end CxxSymbols.Command
