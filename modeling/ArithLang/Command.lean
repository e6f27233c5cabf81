/-
The command line: what its words ask for. Words are read from left to right, and the first that
settles the matter (a request for help or for the version, or a mistake) is the last one read.
-/
import ArithLang.ParseOptions

namespace ArithLang

/-- What to do, and with which file. -/
inductive Task where
  | tokenize (file : String)
  | parse (file : String)
  | run (file : String)
  | session
deriving DecidableEq

inductive Command where
  | help
  | version
  | misuse
  | perform (task : Task) (options : ParseOptions)
deriving DecidableEq

def Task.file? : Task → Option String
  | tokenize file | parse file | run file => some file
  | session => none

namespace Command

/-- The file that the command reads. -/
def file? : Command → Option String
  | perform task _ => task.file?
  | help | version | misuse => none

/-! ## Words -/

inductive TaskName where
  | tokenize
  | parse
  | run
  | session
deriving DecidableEq

def TaskName.ofWord? : String → Option TaskName
  | "tokenize" => some tokenize
  | "parse" => some parse
  | "run" => some run
  | "calc" => some session
  | _ => none

def TaskName.takesFile : TaskName → Bool
  | tokenize | parse | run => true
  | session => false

/-- The task of that name on the file given, or on none. -/
def TaskName.task? : TaskName → Option String → Option Task
  | tokenize, some file => some (.tokenize file)
  | parse, some file => some (.parse file)
  | run, some file => some (.run file)
  | session, none => some .session
  | _, _ => none

/-- A word that begins with a dash is a flag, or several one-letter flags in one. The dash alone is
none. -/
def isFlag (word : String) : Bool :=
  match word.toList with
  | '-' :: _ :: _ => true
  | _ => false

/-- Whether `word` asks for `long`, or is a group of one-letter flags of which `short` is the first. -/
def asksFor (long : String) (short : Char) (word : String) : Bool :=
  word == long || match word.toList with
    | '-' :: c :: _ => c == short
    | _ => false

def isHelp : String → Bool := asksFor "--help" 'h'

def isVersion : String → Bool := asksFor "--version" 'V'

/-! ## After the task's name -/

/-- What was read after the name of a task. -/
structure Arguments where
  permissive : Bool
  file? : Option String
  /-- After `--` no word is a flag. -/
  verbatim : Bool

def ofArguments (name : TaskName) (permissive : Bool) (read : Arguments) : List String → Command
  | [] =>
    match name.task? read.file? with
    | some task => perform task (if permissive || read.permissive then .permissive else .strict)
    | none => misuse
  | word :: words =>
    if read.verbatim || !isFlag word then
      if word = "" || read.file?.isSome || !name.takesFile then misuse
      else ofArguments name permissive { read with file? := some word } words
    else if word = "--" then ofArguments name permissive { read with verbatim := true } words
    else if word = "--permissive" then
      if read.permissive then misuse else ofArguments name permissive { read with permissive := true } words
    else if isHelp word then help
    else misuse

/-! ## The whole line -/

/-- The word `help` may be followed by one more: the name of a task, or `help` again. -/
def ofHelp : List String → Command
  | [] => help
  | [word] => if word = "help" || (TaskName.ofWord? word).isSome then help else misuse
  | _ => misuse

/-- The line that is left when `permissive` was asked for or not. -/
def ofWords (permissive : Bool) : List String → Command
  | [] => misuse
  | word :: words =>
    match TaskName.ofWord? word with
    | some name => ofArguments name permissive ⟨false, none, false⟩ words
    | none =>
      if word = "help" then ofHelp words
      else if word = "--permissive" then if permissive then misuse else ofWords true words
      else if isHelp word then help
      else if isVersion word then version
      else misuse

/-- The command that the words of a line ask for, the name of the program left out. -/
def ofLine (words : List String) : Command := ofWords false words

end Command

end ArithLang
