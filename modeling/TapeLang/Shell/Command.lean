import TapeLang.Text.Blank
import TapeLang.Text.Lower

/-!
# Shell commands

A line whose first visible character is `!` is a command: a word right behind the mark, in any case, and perhaps an
argument.  Blanks around the line and around the argument do not count; those inside the argument do.
-/

namespace TapeLang.Shell

/-- The commands of the shell. -/
inductive Command where
  | help
  | quit
  | clear
  | mode
  | load
  | compile
  | listing
  | time
deriving DecidableEq

namespace Command

/-- All commands, in the order in which they are listed. -/
def all : List Command := [help, quit, clear, mode, load, compile, listing, time]

/-- The words that name a command. -/
def words : Command → List String
  | help => ["help", "h", "?"]
  | quit => ["quit", "exit", "q"]
  | clear => ["clear", "cls"]
  | mode => ["mode", "m"]
  | load => ["load", "l"]
  | compile => ["compile", "c"]
  | listing => ["listing", "list"]
  | time => ["time", "t"]

/-- How a command is written. -/
def usage : Command → String
  | help => "!help"
  | quit => "!quit"
  | clear => "!clear"
  | mode => "!mode [0|1]"
  | load => "!load <file>"
  | compile => "!compile <file> <name>"
  | listing => "!listing"
  | time => "!time"

/-- What a command does. -/
def description : Command → String
  | help => "Show this help message"
  | quit => "Leave the shell"
  | clear => "Clear the screen"
  | mode => "Show or set the engine (0 interpret, 1 translate)"
  | load => "Run a program file"
  | compile => "Write a runnable artifact (translate mode)"
  | listing => "Show the bytecode of the last program"
  | time => "Toggle the elapsed time report"

/-- The name that is offered for a command: the first word of its usage. -/
def name (c : Command) : List Char := (Text.cutAtBlank c.usage.toList).1

/-- The command that a word names. -/
def ofWord? (word : List Char) : Option Command := all.find? fun c => c.words.any (·.toList = Text.lower word)

/-- The command on a line, with its argument. -/
def parse (line : String) : Option (Command × Option String) :=
  match Text.trim line.toList with
  | '!' :: rest =>
    let (word, argument) := Text.cutAtBlank rest
    let argument := argument.map Text.trim |>.filter (! ·.isEmpty)
    (ofWord? word).map (·, argument.map String.ofList)
  | _ => none

end Command
end TapeLang.Shell
