import Sentences.Text.Decimal

/-!
# Command-line arguments

Arguments are taken from left to right, and the first thing that is wrong or that asks for the
version or for help decides.

* An option has its value attached (`--start=x`, `-sx`, `-s=x`) or in the next argument, which then
  must not look like an option; a lone `-` does not.
* An option or a flag is given at most once; only `--rule` may be repeated.
* A subcommand ends the options. After `--` nothing more may follow.
-/

namespace Sentences.CommandLine

/-- The options that have a value. -/
inductive Setting where
  | grammar
  | rule
  | nouns
  | verbs
  | preps
  | articles
  | start
  | count
  | seed
  | maxDepth

/-- The options that have none. -/
inductive Flag where
  | noDefaults
  | trim
  | version
  | help

/-- What an option's name stands for. -/
inductive Switch where
  | setting (s : Setting)
  | flag (f : Flag)

/-- What the options say. -/
structure Arguments where
  grammar : Option Text := none
  noDefaults : Bool := false
  rules : List Text := []
  nouns : Option Text := none
  verbs : Option Text := none
  preps : Option Text := none
  articles : Option Text := none
  start : Option Text := none
  count : Option UInt64 := none
  seed : Option UInt64 := none
  maxDepth : Option UInt64 := none
  trim : Bool := false

/-- What is to be done. -/
inductive Command where
  | generate
  | starterRules
  | display (json : Bool)

/-- What a list of arguments comes to. -/
inductive Request where
  | run (arguments : Arguments) (command : Command)
  | version
  | help
  /-- The arguments are not understood. -/
  | usage

/-! ## 1. Names of options -/

/-- The options by their long names. -/
def longNames : List (Text × Switch) :=
  [("grammar".toList, .setting .grammar), ("rule".toList, .setting .rule),
   ("nouns".toList, .setting .nouns), ("verbs".toList, .setting .verbs),
   ("preps".toList, .setting .preps), ("articles".toList, .setting .articles),
   ("start".toList, .setting .start), ("count".toList, .setting .count),
   ("seed".toList, .setting .seed), ("max-depth".toList, .setting .maxDepth),
   ("no-defaults".toList, .flag .noDefaults), ("trim".toList, .flag .trim),
   ("version".toList, .flag .version), ("help".toList, .flag .help)]

/-- The options by their letters. -/
def letters : List (Char × Switch) :=
  [('g', .setting .grammar), ('r', .setting .rule), ('s', .setting .start), ('n', .setting .count),
   ('V', .flag .version), ('h', .flag .help)]

/-! ## 2. Values -/

/-- A number of 64 bits in decimal digits, perhaps with a plus sign before them. -/
def word64? (t : Text) : Option UInt64 :=
  let digits : Text := if t.head? = some '+' then t.tail else t
  match digits.toNat? with
  | none => none
  | some n => if n < UInt64.size then some (UInt64.ofNat n) else none

/-- A value for a place that is still free. -/
def fill {α : Type} (place value : Option α) : Option (Option α) :=
  match place, value with
  | none, some a => some (some a)
  | _, _ => none

/-- A file name, which is not empty. -/
def fileName? (t : Text) : Option Text :=
  if t = [] then none else some t

/-- The arguments with one more value, unless it is not of its kind or not the first. -/
def Arguments.set? (a : Arguments) (s : Setting) (value : Text) : Option Arguments :=
  match s with
  | .rule => some { a with rules := a.rules ++ [value] }
  | .grammar => (fill a.grammar (fileName? value)).map fun v => { a with grammar := v }
  | .nouns => (fill a.nouns (some value)).map fun v => { a with nouns := v }
  | .verbs => (fill a.verbs (some value)).map fun v => { a with verbs := v }
  | .preps => (fill a.preps (some value)).map fun v => { a with preps := v }
  | .articles => (fill a.articles (some value)).map fun v => { a with articles := v }
  | .start => (fill a.start (some value)).map fun v => { a with start := v }
  | .count => (fill a.count (word64? value)).map fun v => { a with count := v }
  | .seed => (fill a.seed (word64? value)).map fun v => { a with seed := v }
  | .maxDepth => (fill a.maxDepth (word64? value)).map fun v => { a with maxDepth := v }

/-! ## 3. One argument -/

/-- The shape of an argument. -/
inductive Shape where
  /-- Two hyphens and nothing else. -/
  | endOfOptions
  | long (name : Text) (attached : Option Text)
  | short (letters : Text)
  | plain

/-- The shape that an argument has. -/
def shape : Text → Shape
  | '-' :: '-' :: [] => .endOfOptions
  | '-' :: '-' :: rest =>
    .long (rest.takeWhile (· != '=')) ((rest.dropWhile (· != '=')).tail?)
  | '-' :: c :: rest => .short (c :: rest)
  | _ => .plain

/-- Where an argument leaves the reading of arguments. -/
inductive Progress where
  /-- It goes on; perhaps a setting waits for its value. -/
  | goOn (a : Arguments) (waiting : Option Setting)
  | stop (r : Request)

/-- Goes on with a value set, or stops. -/
def Progress.ofSet (a : Arguments) (s : Setting) (value : Text) : Progress :=
  match a.set? s value with
  | some b => .goOn b none
  | none => .stop .usage

/-- Goes on with a flag raised, or stops. -/
def Progress.ofFlag (a : Arguments) : Flag → Progress
  | .noDefaults => if a.noDefaults then .stop .usage else .goOn { a with noDefaults := true } none
  | .trim => if a.trim then .stop .usage else .goOn { a with trim := true } none
  | .version => .stop .version
  | .help => .stop .help

/-- Takes a long option. -/
def takeLong (a : Arguments) (name : Text) (attached : Option Text) : Progress :=
  match longNames.lookup name, attached with
  | none, _ => .stop .usage
  | some (.setting s), some value => .ofSet a s value
  | some (.setting s), none => .goOn a (some s)
  | some (.flag _), some _ => .stop .usage
  | some (.flag f), none => .ofFlag a f

/-- Takes the letters of an argument: flags, then perhaps a setting with the rest for its value. -/
def takeLetters (a : Arguments) : Text → Progress
  | [] => .goOn a none
  | c :: rest =>
    match letters.lookup c with
    | none => .stop .usage
    | some (.setting s) =>
      match rest with
      | [] => .goOn a (some s)
      | '=' :: value => .ofSet a s value
      | value => .ofSet a s value
    | some (.flag f) =>
      match Progress.ofFlag a f with
      | .goOn b _ => takeLetters b rest
      | .stop r => .stop r

/-! ## 4. Subcommands -/

/-- Reads the arguments after a subcommand; `json` says whether `--json` is allowed and given. -/
def afterSubcommand (command : Bool → Command) (a : Arguments) :
    (allowed given : Bool) → List Text → Request
  | _, given, [] => .run a (command given)
  | allowed, given, arg :: rest =>
    match shape arg with
    | .endOfOptions => if rest = [] then .run a (command given) else .usage
    | .long name none =>
      if name = "json".toList ∧ allowed ∧ ¬ given then afterSubcommand command a allowed true rest
      else if name = "help".toList then .help
      else .usage
    | .short (c :: _) => if c = 'h' then .help else .usage
    | _ => .usage

/-- The names of the subcommands. -/
def subcommands : List Text :=
  ["rules".toList, "show".toList, "help".toList]

/-- Reads what follows the name of a subcommand. -/
def takeSubcommand (a : Arguments) (name : Text) (rest : List Text) : Request :=
  if name = "rules".toList then afterSubcommand (fun _ => .starterRules) a false false rest
  else if name = "show".toList then afterSubcommand .display a true false rest
  else if rest.length ≤ 1 ∧ rest.all subcommands.contains then .help
  else .usage

/-! ## 5. All arguments -/

/-- Reads arguments; perhaps a setting waits for its value. -/
def read (a : Arguments) (waiting : Option Setting) : List Text → Request
  | [] => if waiting.isNone then .run a .generate else .usage
  | arg :: rest =>
    match waiting, shape arg with
    | some s, .plain =>
      match a.set? s arg with
      | some b => read b none rest
      | none => .usage
    | some _, _ => .usage
    | none, .plain => if arg ∈ subcommands then takeSubcommand a arg rest else .usage
    | none, .endOfOptions => if rest = [] then .run a .generate else .usage
    | none, .long name attached =>
      match takeLong a name attached with
      | .goOn b w => read b w rest
      | .stop r => r
    | none, .short letters =>
      match takeLetters a letters with
      | .goOn b w => read b w rest
      | .stop r => r

/-- What a list of arguments comes to. -/
def Request.ofArguments (arguments : List Text) : Request :=
  read {} none arguments

end Sentences.CommandLine
