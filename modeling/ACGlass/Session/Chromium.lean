import ACGlass.Shell.Commands

/-!
# The rewriting of Chromium commands

The Python helper of `rewrite_bash_lc_chromium_vulkan_command` splits a command with
`shlex.split`, inserts the flags that are missing, and prints it with `shlex.join` for bash.
-/

namespace ACGlass
namespace Session

open Shell

/-- The `ACGLASS_CHROMIUM_VULKAN_*` variables, split, and what Python's strings and `fnmatch`
do. -/
structure Settings where
  commands : List Chars
  flags : List Chars
  isAlnum : Char → Bool
  isDigit : Char → Bool
  lower : Chars → Chars
  fnmatchcase : Chars → Chars → Bool

namespace Settings

variable (s : Settings)

/-- `is_assignment`; in `name.replace("_", "A").isalnum()` underscores count. -/
def isAssignment (token : Chars) : Bool :=
  if '=' ∉ token ∨ token.head? = some '=' then false
  else
    let name := token.takeWhile (· ≠ '=')
    name.all (fun c => c = '_' || s.isAlnum c) && !name.head?.any s.isDigit

/-- The words behind `env` that the helper skips. -/
def skipEnv : List Chars → ℕ
  | [] => 0
  | token :: tokens =>
    if token = ['-', '-'] then 1
    else if token.head? = some '-' then skipEnv tokens + 1
    else if s.isAssignment token then skipEnv tokens + 1
    else 0

def envWord : Chars := ['e', 'n', 'v']

def index (tokens : List Chars) : ℕ :=
  match tokens with
  | [] => 0
  | token :: rest =>
    if token = envWord then s.skipEnv rest + 1 else (tokens.takeWhile s.isAssignment).length

def basename (token : Chars) : Chars := (token.reverse.takeWhile (· ≠ '/')).reverse

def isChromium (token : Chars) : Bool :=
  s.commands.any fun pattern => s.fnmatchcase (s.lower (basename token)) pattern

/-- `token.split("=", 1)[0]` -/
def key (token : Chars) : Chars := token.takeWhile (· ≠ '=')

/-- The flags that are not among the arguments. -/
def insert (args : List Chars) : List Chars :=
  s.flags.filter fun flag => !(args.map key).contains (key flag)

end Settings

/-- The tokens of a command with the flags and the place for them. -/
structure Rewriting where
  tokens : List Chars
  index : ℕ
  insert : List Chars
  deriving DecidableEq, Repr

namespace Rewriting

variable (r : Rewriting)

/-- The tokens with the flags. -/
def inserted : List Chars :=
  r.tokens.take (r.index + 1) ++ r.insert ++ r.tokens.drop (r.index + 1)

def text : Chars := join r.inserted

end Rewriting

/-- The helper; `none` is an exit with an error. -/
def Settings.rewrite (s : Settings) (cmd : Chars) : Option Rewriting :=
  if cmd.any (· ∈ ['\n', ';', '|', '&', '<', '>']) then none
  else do
    let tokens ← split cmd
    let index := s.index tokens
    let program ← tokens[index]?
    let insert := s.insert (tokens.drop (index + 1))
    if s.isChromium program ∧ insert ≠ [] then return ⟨tokens, index, insert⟩ else none

section Env

/-- What `env` is told to run, behind its assignments. -/
def envOperands : List Chars → Option ℕ
  | [] => none
  | arg :: args => if '=' ∈ arg then (envOperands args).map (· + 1) else some 0

/-- A lone dash may stand in front of the assignments. -/
def envDash : List Chars → Option ℕ
  | [] => none
  | arg :: args => if arg = ['-'] then (envOperands args).map (· + 1) else envOperands (arg :: args)

/-- The place of the program among the arguments of `env`; `takesArgument` says of an option
whether the next argument belongs to it. -/
def envProgram (takesArgument : Chars → Bool) : List Chars → Option ℕ
  | [] => none
  | arg :: args =>
    if arg = ['-', '-'] then (envDash args).map (· + 1)
    else if arg.head? = some '-' ∧ arg ≠ ['-'] then
      if takesArgument arg then
        match args with
        | [] => none
        | _ :: args => (envProgram takesArgument args).map (· + 2)
      else (envProgram takesArgument args).map (· + 1)
    else envDash (arg :: args)

end Env

/-- A program with its environment: the assignments of bash, `env` with its arguments, and
the arguments of the program. -/
structure Launched where
  assigns : List (Chars × Chars)
  wrapper : List Chars
  program : Chars
  args : List Chars
  deriving DecidableEq, Repr

/-- The place of the program in the words of a command. -/
def programPlace (takesArgument : Chars → Bool) : List Chars → Option ℕ
  | [] => none
  | arg :: args =>
    if arg = Settings.envWord then (envProgram takesArgument args).map (· + 1) else some 0

def launch (takesArgument : Chars → Bool) (c : Simple) : Option Launched := do
  let place ← programPlace takesArgument c.argv
  let program ← c.argv[place]?
  return ⟨c.assigns, c.argv.take place, program, c.argv.drop (place + 1)⟩

/-- In every state of the shell both commands launch the same program with the same
environment, and with the same arguments but for the flags in front of them. -/
def Preserves (takesArgument : Chars → Bool) (cmd : Chars) (r : Rewriting) : Prop :=
  ∀ sh, ∃ l, (run sh cmd).bind (launch takesArgument) = some l ∧
    (run sh r.text).bind (launch takesArgument) = some { l with args := r.insert ++ l.args }

end Session
end ACGlass
