import Estuary.Spec.Platform

/-!
# Estuary — the command line and the config file (`ct_parseopts`)

* **`getopts`** — `getopt_long` as the loop of `ct_parseopts` calls it until it answers -1: what
  every call returns, and the operands that are left at `optind`. It follows the C library:
  operands are moved behind the options (with `POSIXLY_CORRECT` set they end them), `--` ends the
  options, a long option may be abbreviated as long as the abbreviations agree on what they do,
  and an argument follows in the same element or is the next one, whatever that looks like.
* **`atol`**, **`atoi`**, **`strncpy`** — the library's conversions and its bounded copy.
* **`ctParseopts`** — the loop over the options, the test for one operand, and the entries of the
  config file. `configs` is what `config_read_file` makes of each file name.

A parse ends early at a `return` with an error or where `usage` exits; what it has stored up to
there stays stored. The sizes of the arrays come from headers outside the repository, so they are
a parameter.
-/

namespace Estuary

/-- `E2BIG`. -/
def e2big : Nat := 7

/-- `INT_MAX`. -/
def intMax : Int := 2 ^ 31 - 1

/-! ## The library -/

/-- `isspace` in the C locale: a blank, or one of the characters 9 to 13. -/
def isSpace (c : Char) : Bool := c == ' ' || (9 ≤ c.toNat && c.toNat ≤ 13)

/-- The number that the digits at the front of `cs` write in base 10. -/
def digitsVal (cs : List Char) : Nat :=
  (cs.takeWhile Char.isDigit).foldl (fun n c => 10 * n + (c.toNat - '0'.toNat)) 0

/-- `atol`, which is `strtol` in base 10: at the bounds of `long` it stops. -/
def atol (s : CString) : Int :=
  match s.chars.dropWhile isSpace with
  | '-' :: digits => max (-(2 ^ 63)) (-(digitsVal digits))
  | '+' :: digits => min (2 ^ 63 - 1) (digitsVal digits)
  | digits => min (2 ^ 63 - 1) (digitsVal digits)

/-- `atoi`: the same number, narrowed to `int`. -/
def atoi (s : CString) : Int := Int.bmod (atol s) (2 ^ 32)

/-- What `strncpy(array, s, n)` leaves in an array of `n` characters. -/
def strncpy (s : CString) (n : Nat) : List Char :=
  s.chars.take n ++ List.replicate (n - s.chars.length) nul

/-- The string in an array, read up to its terminator; none if the array holds no terminator, so
that a reader runs past it. -/
def asString (array : List Char) : Option CString :=
  if nul ∈ array then some (cstr array) else none

/-! ## `getopt_long` -/

/-- The variables that the long options set through their `flag` pointer. -/
inductive OptFlag where
  | oAbortOnError
  | oDaemonize
  | oDryRun
  deriving DecidableEq, Repr

/-- What a call of `getopt_long` returns: an option with its `optarg`, an option without one, 0
after setting a flag, or `'?'`. -/
inductive OptRet where
  | arg (c : Char) (optarg : CString)
  | plain (c : Char)
  | flag (f : OptFlag)
  | unknown
  deriving DecidableEq, Repr

/-- The `flag` and `val` of a `struct option`: `*flag = 1`, or the character to return. -/
inductive OptVal where
  | set (f : OptFlag)
  | char (c : Char)
  deriving DecidableEq, Repr

/-- `struct option`. No entry of the table has an optional argument. -/
structure LongOpt where
  name : List Char
  hasArg : Bool
  val : OptVal
  deriving DecidableEq, Repr

/-- `long_opts`. -/
def longOpts : List LongOpt :=
  [⟨"abort-on-error".toList, false, .set .oAbortOnError⟩,
   ⟨"abort_on_error".toList, false, .set .oAbortOnError⟩,
   ⟨"archive".toList, true, .char 'A'⟩,
   ⟨"config".toList, true, .char 'c'⟩,
   ⟨"daemon".toList, false, .set .oDaemonize⟩,
   ⟨"dry-run".toList, false, .set .oDryRun⟩,
   ⟨"help".toList, false, .char 'h'⟩,
   ⟨"quiet".toList, false, .char 'q'⟩,
   ⟨"rebind".toList, false, .char 'r'⟩,
   ⟨"update-interval".toList, true, .char 'u'⟩,
   ⟨"update_interval".toList, true, .char 'u'⟩,
   ⟨"verbose".toList, false, .char 'v'⟩]

/-- The option string. -/
def shortOpts : List Char := "A:b:c:hp:qu:v".toList

/-- Whether `c` is a short option and, if so, whether it takes an argument. -/
def takesArg (c : Char) : Option Bool :=
  if c = ':' ∨ c = ';' then none
  else
    match shortOpts.dropWhile (· ≠ c) with
    | [] => none
    | _ :: rest => some (rest.head? = some ':')

/-- The long option that `name` names or abbreviates. -/
def findLong (name : List Char) : Option LongOpt :=
  match longOpts.find? (fun p => p.name = name) with
  | some p => some p
  | none =>
    match longOpts.filter (fun p => name.isPrefixOf p.name) with
    | [] => none
    | p :: others =>
      if others.all (fun q => q.hasArg = p.hasArg ∧ q.val = p.val) then some p else none

/-- The return value for an option with its argument. -/
def OptVal.withArg : OptVal → CString → OptRet
  | .set f, _ => .flag f
  | .char c, optarg => .arg c optarg

/-- The return value for an option without an argument. -/
def OptVal.alone : OptVal → OptRet
  | .set f => .flag f
  | .char c => .plain c

/-- One element `--name` or `--name=value`: what it returns, and the option whose argument is the
next element. -/
def longElement (body : List Char) : List OptRet × Option OptVal :=
  match findLong (body.takeWhile (· ≠ '=')), body.dropWhile (· ≠ '=') with
  | none, _ => ([.unknown], none)
  | some p, [] => if p.hasArg then ([], some p.val) else ([p.val.alone], none)
  | some p, _ :: value =>
    if p.hasArg then ([p.val.withArg (cstr value)], none) else ([.unknown], none)

/-- One element of short options, from `nextchar` on. -/
def shortElement : List Char → List OptRet × Option OptVal
  | [] => ([], none)
  | c :: rest =>
    match takesArg c with
    | none => (.unknown :: (shortElement rest).1, (shortElement rest).2)
    | some false => (.plain c :: (shortElement rest).1, (shortElement rest).2)
    | some true => if rest = [] then ([], some (.char c)) else ([.arg c (cstr rest)], none)

/-- The calls of `getopt_long` on the elements behind the program's name: what they return, and
the operands. The second argument is the option that waits for its argument. -/
def getopts (posixlyCorrect : Bool) : Option OptVal → List CString → List OptRet × List CString
  | none, [] => ([], [])
  | some _, [] => ([.unknown], [])
  | some val, a :: rest =>
    let r := getopts posixlyCorrect none rest
    (val.withArg a :: r.1, r.2)
  | none, a :: rest =>
    match a.chars with
    | ['-', '-'] => ([], rest)
    | '-' :: '-' :: body =>
      let e := longElement body
      let r := getopts posixlyCorrect e.2 rest
      (e.1 ++ r.1, r.2)
    | '-' :: c :: cluster =>
      let e := shortElement (c :: cluster)
      let r := getopts posixlyCorrect e.2 rest
      (e.1 ++ r.1, r.2)
    | _ =>
      if posixlyCorrect then ([], a :: rest)
      else
        let r := getopts posixlyCorrect none rest
        (r.1, a :: r.2)

/-! ## The options -/

/-- `LL_HSM_ORIGIN_MAX_ARCHIVE`, and the sizes of the character arrays. -/
structure Sizes where
  maxArchive : Nat
  keySize : Nat
  hostnameSize : Nat
  bucketNameSize : Nat
  pathMax : Nat

/-- The sizes of the headers of Lustre, libs3 and Linux. -/
def Sizes.upstream : Sizes := ⟨32, 1024, 255, 255, 4096⟩

/-- `o_archive_cnt` and `o_archive_id` of `ct_options`, and the indices behind the array that were
written. What such a write destroys is not modelled; the first one hits `o_report_int`. -/
structure Archives where
  oArchiveCnt : Nat
  oArchiveId : List Int
  pastArray : List Nat
  deriving DecidableEq, Repr

/-- `o_archive_id[o_archive_cnt] = id; o_archive_cnt++`. -/
def Archives.store (a : Archives) (id : Int) : Archives where
  oArchiveCnt := a.oArchiveCnt + 1
  oArchiveId := a.oArchiveId.set a.oArchiveCnt id
  pastArray :=
    if a.oArchiveCnt < a.oArchiveId.length then a.pastArray else a.pastArray ++ [a.oArchiveCnt]

/-- `S3Protocol`. -/
inductive Protocol where
  | https
  | http
  deriving DecidableEq, Repr

/-- `struct ct_options`, and the globals that the config file fills. -/
structure Options where
  oDaemonize : Bool
  oDryRun : Bool
  oAbortOnError : Bool
  oVerbose : Int
  archives : Archives
  oReportInt : Int
  oConfig : CString
  oMnt : Option CString
  oMntFd : Int
  accessKey : List Char
  secretKey : List Char
  host : List Char
  bucketName : List Char
  pathPrefix : List Char
  protocol : Protocol
  maxRequests : Int

/-- `MAX_HSM_REQUESTS`. -/
def maxHsmRequests : Int := 100

/-- What the process starts with. -/
def Options.initial (sizes : Sizes) : Options where
  oDaemonize := false
  oDryRun := false
  oAbortOnError := false
  oVerbose := llapiMsgInfo
  archives := ⟨0, List.replicate sizes.maxArchive 0, []⟩
  oReportInt := 30
  oConfig := cstr "config.cfg".toList
  oMnt := none
  oMntFd := 0
  accessKey := List.replicate sizes.keySize nul
  secretKey := List.replicate sizes.keySize nul
  host := List.replicate sizes.hostnameSize nul
  bucketName := List.replicate sizes.bucketNameSize nul
  pathPrefix := List.replicate sizes.pathMax nul
  protocol := .http
  maxRequests := 0

/-- `*flag = 1`. -/
def Options.setFlag (o : Options) : OptFlag → Options
  | .oAbortOnError => { o with oAbortOnError := true }
  | .oDaemonize => { o with oDaemonize := true }
  | .oDryRun => { o with oDryRun := true }

/-- The entries of a config file that `ct_parseopts` looks up; none where the file has no entry of
that name and type. -/
structure ConfigFile where
  accessKey : Option CString
  secretKey : Option CString
  host : Option CString
  bucketName : Option CString
  pathPrefix : Option CString
  ssl : Option Bool
  maxRequests : Option Int

/-! ## `ct_parseopts` -/

/-- How `ct_parseopts` ends: it returns a value, or `usage` calls `exit`. -/
inductive ParseEnd where
  | returned (rc : Int)
  | exited (rc : Int)
  deriving DecidableEq, Repr

/-- A part of `ct_parseopts`: it works on the options and may be the last one. -/
abbrev Parse := EStateM ParseEnd Options

/-- The `switch` for one option. -/
def parseOption : OptRet → Parse Unit
  | .arg 'A' optarg =>
    if atol optarg ≤ 0 ∨ atol optarg > intMax then throw (.returned (-e2big))
    else modify fun o => { o with archives := o.archives.store (atoi optarg) }
  | .arg 'b' optarg => modify fun o => { o with oConfig := optarg }
  | .arg 'c' optarg => modify fun o => { o with oConfig := optarg }
  | .plain 'h' => throw (.exited 0)
  | .plain 'q' => modify fun o => { o with oVerbose := o.oVerbose - 1 }
  | .arg 'u' optarg => do
    modify fun o => { o with oReportInt := atoi optarg }
    if atoi optarg < 0 then throw (.returned (-einval))
  | .plain 'v' => modify fun o => { o with oVerbose := o.oVerbose + 1 }
  | .flag f => modify fun o => o.setFlag f
  | _ => throw (.returned (-einval))

/-- The `while` loop. -/
def parseOptions : List OptRet → Parse Unit
  | [] => pure ()
  | r :: rest => do
    parseOption r
    parseOptions rest

/-- `argc != optind + 1`, else the mount point. -/
def parseMount : List CString → Parse Unit
  | [mnt] => modify fun o => { o with oMnt := some mnt, oMntFd := -1 }
  | _ => throw (.returned (-einval))

/-- `config_read_file`. -/
def readConfig (configs : CString → Option ConfigFile) : Parse ConfigFile := do
  match configs (← get).oConfig with
  | some file => pure file
  | none => throw (.returned (-einval))

/-- `config_lookup_string` and the `strncpy` into an array of `size` characters. -/
def lookupString (entry : Option CString) (size : Nat) (copy : List Char → Options → Options) :
    Parse Unit :=
  match entry with
  | some configStr => modify (copy (strncpy configStr size))
  | none => throw (.returned (-einval))

/-- The lookup of `ssl`. -/
def lookupSsl : Option Bool → Parse Unit
  | some true => modify fun o => { o with protocol := .https }
  | some false => modify fun o => { o with protocol := .http }
  | none => throw (.returned (-einval))

/-- The lookup of `max_requests`, which writes the global before it is tested. -/
def lookupMaxRequests : Option Int → Parse Unit
  | some n => do
    modify fun o => { o with maxRequests := n }
    if n ≤ 0 then throw (.returned (-einval))
  | none => modify fun o => { o with maxRequests := maxHsmRequests }

/-- The entries of the config file. -/
def parseConfig (sizes : Sizes) (file : ConfigFile) : Parse Unit := do
  lookupString file.accessKey sizes.keySize fun a o => { o with accessKey := a }
  lookupString file.secretKey sizes.keySize fun a o => { o with secretKey := a }
  lookupString file.host sizes.hostnameSize fun a o => { o with host := a }
  lookupString file.bucketName sizes.bucketNameSize fun a o => { o with bucketName := a }
  lookupString file.pathPrefix sizes.pathMax fun a o => { o with pathPrefix := a }
  lookupSsl file.ssl
  lookupMaxRequests file.maxRequests

/-- The body of `ct_parseopts`, for what `getopt_long` makes of the command line. -/
def parseBody (sizes : Sizes) (configs : CString → Option ConfigFile) (opts : List OptRet)
    (operands : List CString) : Parse Unit := do
  parseOptions opts
  parseMount operands
  let file ← readConfig configs
  parseConfig sizes file

/-- `ct_parseopts`: how it ends, and the options then. -/
def ctParseopts (sizes : Sizes) (posixlyCorrect : Bool) (configs : CString → Option ConfigFile)
    (argv : List CString) : ParseEnd × Options :=
  let line := getopts posixlyCorrect none argv.tail
  match parseBody sizes configs line.1 line.2 (Options.initial sizes) with
  | .ok _ o => (.returned 0, o)
  | .error e o => (e, o)

end Estuary
