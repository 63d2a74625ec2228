/-
Mount options: `parse_options` (sb_mgr.c), with the kernel's option matcher (lib/parser.c) that it calls.

A string is a list of characters. `mem k` tells whether the k-th allocation succeeds: a number is converted in an allocated
copy, and `iocharset=` allocates its argument. `node` is the allocation that `opts->iocharset` points to, `live` are the
allocations that were not freed; `applied` lists the options that were carried out.

- `parseToken_turn`, `parseLoop_spec`: what one turn of the loop and the whole loop leave, with memory and without;
- `parseOptions_right_iff`: parsing is all or nothing if and only if no number that is reached fails to be converted, and no
  `iocharset=` that is reached finds no memory after another one;
- `parseOptions_number_fails`: a number that finds no memory ends the parsing with success.
-/
import AtsLdd.Fat.Entry
import AtsLdd.Fat.Mount
import AtsLdd.Fat.Readdir

namespace AtsLdd.Fat

open AtsLdd.Machine

/-! ## Numbers -/

/-- the value of a hexadecimal digit -/
def xdigit (c : Char) : Option ℕ :=
  if '0' ≤ c ∧ c ≤ '9' then some (c.toNat - '0'.toNat)
  else if 'a' ≤ c ∧ c ≤ 'f' then some (c.toNat - 'a'.toNat + 10)
  else if 'A' ≤ c ∧ c ≤ 'F' then some (c.toNat - 'A'.toNat + 10)
  else none

/-- `isdigit` -/
def isDigit (c : Char) : Bool := decide ('0' ≤ c ∧ c ≤ '9')

/-- `simple_guess_base` -/
def simpleGuessBase : List Char → ℕ
  | '0' :: x :: d :: _ => if (x = 'x' ∨ x = 'X') ∧ (xdigit d).isSome then 16 else 8
  | '0' :: _ => 8
  | _ => 10

/-- the loop of `simple_strtoul`: the number, and what is behind it -/
def strtoulDigits (base : ℕ) : ℕ → List Char → ℕ × List Char
  | result, [] => (result, [])
  | result, c :: cp =>
    match xdigit c with
    | none => (result, c :: cp)
    | some value =>
      if value ≥ base then (result, c :: cp) else strtoulDigits base (ulong (result * base + value)) cp

/-- `simple_strtoul` -/
def simpleStrtoul (cp : List Char) (base : ℕ) : ℕ × List Char :=
  let base := if base = 0 then simpleGuessBase cp else base
  match base, cp with
  | 16, '0' :: 'x' :: cp => strtoulDigits 16 0 cp
  | 16, '0' :: 'X' :: cp => strtoulDigits 16 0 cp
  | base, cp => strtoulDigits base 0 cp

/-- `simple_strtol` -/
def simpleStrtol (cp : List Char) (base : ℕ) : ℤ × List Char :=
  match cp with
  | '-' :: cp => (int64 (- (simpleStrtoul cp base).1), (simpleStrtoul cp base).2)
  | cp => (int64 (simpleStrtoul cp base).1, (simpleStrtoul cp base).2)

/-! ## Matching -/

def MAX_OPT_ARGS : ℕ := 3

/-- the argument of one `%` directive, and what is behind it -/
def matchArg (c : Char) (len : Option ℕ) (s : List Char) : Option (List Char × List Char) :=
  let rest : Option (List Char) :=
    if c = 's' then if s = [] then none else some (s.drop (min (len.getD s.length) s.length))
    else if c = 'u' then some (simpleStrtoul s 0).2
    else if c = 'o' then some (simpleStrtoul s 8).2
    else none
  match rest with
  | none => none
  | some rest => if c ≠ 's' ∧ rest.length = s.length then none else some (s.take (s.length - rest.length), rest)

/-- `match_one` against the pattern `p`: the arguments. `len` is set behind a `%`, to the width read so far; `argc` is the
number of arguments so far. The tables have only the directives `%s`, `%u` and `%o`. -/
def matchOne : List Char → Option (Option ℕ) → ℕ → List Char → Option (List (List Char))
  | [], none, _, s => if s = [] then some [] else none
  | [], some _, _, _ => none
  | c :: p, none, argc, s =>
    if c = '%' then matchOne p (some none) argc s
    else
      match s with
      | [] => none
      | d :: s => if c = d then matchOne p none argc s else none
  | c :: p, some len, argc, s =>
    if isDigit c then matchOne p (some (some (len.getD 0 * 10 + (c.toNat - '0'.toNat)))) argc s
    else if c = '%' ∧ len = none then
      match s with
      | '%' :: s => matchOne p none argc s
      | _ => none
    else if argc ≥ MAX_OPT_ARGS then none
    else
      match matchArg c len s with
      | none => none
      | some (arg, s) => (matchOne p none (argc + 1) s).map (arg :: ·)

/-- the options -/
inductive FatToken where
  | checkN | checkR | checkS | uid | gid | umask | dmask | fmask | allowUtime | codepage
  | usefree | nocase | quiet | showexec | debug | immutable | dots | nodots
  | charset | shortnameLower | shortnameWin95 | shortnameWinnt | shortnameMixed | utf8No | utf8Yes
  | uniXlNo | uniXlYes | nonumtailNo | nonumtailYes | obsolate | flush | tzUtc | rodir | errCont
  | errPanic | errRo | err
deriving DecidableEq

def fatTokens : List (FatToken × String) := [
  (.checkR, "check=relaxed"), (.checkS, "check=strict"), (.checkN, "check=normal"),
  (.checkR, "check=r"), (.checkS, "check=s"), (.checkN, "check=n"),
  (.uid, "uid=%u"), (.gid, "gid=%u"), (.umask, "umask=%o"), (.dmask, "dmask=%o"), (.fmask, "fmask=%o"),
  (.allowUtime, "allow_utime=%o"), (.codepage, "codepage=%u"), (.usefree, "usefree"), (.nocase, "nocase"),
  (.quiet, "quiet"), (.showexec, "showexec"), (.debug, "debug"), (.immutable, "sys_immutable"), (.flush, "flush"),
  (.tzUtc, "tz=UTC"), (.errCont, "errors=continue"), (.errPanic, "errors=panic"), (.errRo, "errors=remount-ro"),
  (.obsolate, "conv=binary"), (.obsolate, "conv=text"), (.obsolate, "conv=auto"), (.obsolate, "conv=b"),
  (.obsolate, "conv=t"), (.obsolate, "conv=a"), (.obsolate, "fat=%u"), (.obsolate, "blocksize=%u"),
  (.obsolate, "cvf_format=%20s"), (.obsolate, "cvf_options=%100s"), (.obsolate, "posix")]

def msdosTokens : List (FatToken × String) := [
  (.nodots, "nodots"), (.nodots, "dotsOK=no"), (.dots, "dots"), (.dots, "dotsOK=yes")]

def vfatTokens : List (FatToken × String) := [
  (.charset, "iocharset=%s"), (.shortnameLower, "shortname=lower"), (.shortnameWin95, "shortname=win95"),
  (.shortnameWinnt, "shortname=winnt"), (.shortnameMixed, "shortname=mixed"),
  (.utf8No, "utf8=0"), (.utf8No, "utf8=no"), (.utf8No, "utf8=false"),
  (.utf8Yes, "utf8=1"), (.utf8Yes, "utf8=yes"), (.utf8Yes, "utf8=true"), (.utf8Yes, "utf8"),
  (.uniXlNo, "uni_xlate=0"), (.uniXlNo, "uni_xlate=no"), (.uniXlNo, "uni_xlate=false"),
  (.uniXlYes, "uni_xlate=1"), (.uniXlYes, "uni_xlate=yes"), (.uniXlYes, "uni_xlate=true"), (.uniXlYes, "uni_xlate"),
  (.nonumtailNo, "nonumtail=0"), (.nonumtailNo, "nonumtail=no"), (.nonumtailNo, "nonumtail=false"),
  (.nonumtailYes, "nonumtail=1"), (.nonumtailYes, "nonumtail=yes"), (.nonumtailYes, "nonumtail=true"),
  (.nonumtailYes, "nonumtail"), (.rodir, "rodir")]

/-- `match_token`: the first pattern that matches, with its arguments; the table ends with `Opt_err` -/
def matchToken (s : List Char) : List (FatToken × String) → FatToken × List (List Char)
  | [] => (.err, [])
  | (token, pattern) :: table =>
    match matchOne pattern.toList none 0 s with
    | some args => (token, args)
    | none => matchToken s table

/-- the token of an option, from the common table or the one of the file system -/
def optionToken (isVfat : Bool) (p : List Char) : FatToken × List (List Char) :=
  if (matchToken p fatTokens).1 = .err then matchToken p (if isVfat then vfatTokens else msdosTokens)
  else matchToken p fatTokens

/-- `match_number`, in a copy of its argument -/
def matchNumber (mem : ℕ → Bool) (k : ℕ) (arg : List Char) (base : ℕ) : Option ℤ :=
  if mem k then if (simpleStrtol arg base).2 = arg then none else some (int32 (simpleStrtol arg base).1) -- -EINVAL
  else none -- -ENOMEM

/-! ## Options -/

def VFAT_SFN_CREATE_WIN95 : ℕ := 0x0100
def VFAT_SFN_CREATE_WINNT : ℕ := 0x0200

def FAT_ERRORS_CONT : UInt8 := 1
def FAT_ERRORS_PANIC : UInt8 := 2
def FAT_ERRORS_RO : UInt8 := 3

/-- `S_IWGRP | S_IWOTH`, 0022 -/
def S_IWGRP_IWOTH : UInt16 := 0x12

/-- the mark of an `allow_utime` that is not set -/
def UTIME_UNSET : UInt16 := 0xffff

/-- `struct fat_mount_options` -/
structure FatMountOptions where
  fsUid : UInt32
  fsGid : UInt32
  fsFmask : UInt16
  fsDmask : UInt16
  codepage : UInt16
  /-- the string; `none` is `fat_default_iocharset` -/
  iocharset : Option (List Char)
  shortname : ℕ
  nameCheck : Char
  errors : UInt8
  allowUtime : UInt16
  quiet : Bool
  showexec : Bool
  sysImmutable : Bool
  dotsOK : Bool
  isvfat : Bool
  utf8 : Bool
  unicodeXlate : Bool
  numtail : Bool
  flush : Bool
  nocase : Bool
  usefree : Bool
  tzUtc : Bool
  rodir : Bool
  /-- the result parameter `debug` -/
  debug : Bool
deriving DecidableEq

/-- what the defaults are taken from -/
structure OptionEnv where
  currentUid : UInt32
  currentGid : UInt32
  currentUmask : UInt16
  /-- `fat_default_codepage` -/
  defaultCodepage : UInt16

/-- the defaults; `flush` is left as `kzalloc` made it -/
def optionDefaults (isVfat : Bool) (oenv : OptionEnv) : FatMountOptions where
  fsUid := oenv.currentUid
  fsGid := oenv.currentGid
  fsFmask := oenv.currentUmask
  fsDmask := oenv.currentUmask
  codepage := oenv.defaultCodepage
  iocharset := none
  shortname := if isVfat then VFAT_SFN_DISPLAY_WINNT ||| VFAT_SFN_CREATE_WIN95 else 0
  nameCheck := 'n'
  errors := FAT_ERRORS_RO
  allowUtime := UTIME_UNSET
  quiet := false
  showexec := false
  sysImmutable := false
  dotsOK := false
  isvfat := isVfat
  utf8 := false
  unicodeXlate := false
  numtail := true
  flush := false
  nocase := false
  usefree := false
  tzUtc := false
  rodir := !isVfat
  debug := false

/-- the base of the number that an option takes -/
def FatToken.numberBase : FatToken → Option ℕ
  | .uid => some 0
  | .gid => some 0
  | .umask => some 8
  | .dmask => some 8
  | .fmask => some 8
  | .allowUtime => some 8
  | .codepage => some 0
  | _ => none

/-- the cases of the switch that take a number -/
def FatMountOptions.setNumber (token : FatToken) (option : ℤ) (opts : FatMountOptions) : FatMountOptions :=
  match token with
  | .uid => { opts with fsUid := UInt32.ofInt option }
  | .gid => { opts with fsGid := UInt32.ofInt option }
  | .umask => { opts with fsFmask := UInt16.ofInt option, fsDmask := UInt16.ofInt option }
  | .dmask => { opts with fsDmask := UInt16.ofInt option }
  | .fmask => { opts with fsFmask := UInt16.ofInt option }
  | .allowUtime => { opts with allowUtime := UInt16.ofInt option &&& S_IWGRP_IWOTH }
  | .codepage => { opts with codepage := UInt16.ofInt option }
  | _ => opts

/-- the cases of the switch without an argument; an obsolete option is only reported -/
def FatMountOptions.setFlag (isVfat : Bool) (token : FatToken) (opts : FatMountOptions) : FatMountOptions :=
  match token with
  | .checkS => { opts with nameCheck := 's' }
  | .checkR => { opts with nameCheck := 'r' }
  | .checkN => { opts with nameCheck := 'n' }
  | .usefree => { opts with usefree := true }
  | .nocase =>
    if !isVfat then { opts with nocase := true }
    else { opts with shortname := VFAT_SFN_DISPLAY_WIN95 ||| VFAT_SFN_CREATE_WIN95 } -- for backward compatibility
  | .quiet => { opts with quiet := true }
  | .showexec => { opts with showexec := true }
  | .debug => { opts with debug := true }
  | .immutable => { opts with sysImmutable := true }
  | .flush => { opts with flush := true }
  | .tzUtc => { opts with tzUtc := true }
  | .errCont => { opts with errors := FAT_ERRORS_CONT }
  | .errPanic => { opts with errors := FAT_ERRORS_PANIC }
  | .errRo => { opts with errors := FAT_ERRORS_RO }
  | .dots => { opts with dotsOK := true }
  | .nodots => { opts with dotsOK := false }
  | .shortnameLower => { opts with shortname := VFAT_SFN_DISPLAY_LOWER ||| VFAT_SFN_CREATE_WIN95 }
  | .shortnameWin95 => { opts with shortname := VFAT_SFN_DISPLAY_WIN95 ||| VFAT_SFN_CREATE_WIN95 }
  | .shortnameWinnt => { opts with shortname := VFAT_SFN_DISPLAY_WINNT ||| VFAT_SFN_CREATE_WINNT }
  | .shortnameMixed => { opts with shortname := VFAT_SFN_DISPLAY_WINNT ||| VFAT_SFN_CREATE_WIN95 }
  | .utf8No => { opts with utf8 := false }
  | .utf8Yes => { opts with utf8 := true }
  | .uniXlNo => { opts with unicodeXlate := false }
  | .uniXlYes => { opts with unicodeXlate := true }
  | .nonumtailNo => { opts with numtail := true } -- negated option
  | .nonumtailYes => { opts with numtail := false } -- negated option
  | .rodir => { opts with rodir := true }
  | _ => opts

/-- the end of `parse_options`: what is not set is made from the others -/
def FatMountOptions.finish (opts : FatMountOptions) : FatMountOptions :=
  let opts :=
    if opts.allowUtime = UTIME_UNSET then { opts with allowUtime := ~~~opts.fsDmask &&& S_IWGRP_IWOTH } else opts
  if opts.unicodeXlate then { opts with utf8 := false } else opts

/-! ## Parsing -/

/-- the variables of `parse_options`, and its heap -/
structure ParseSt where
  opts : FatMountOptions
  /-- the allocation that `opts->iocharset` points to; `none` is `fat_default_iocharset` -/
  node : Option ℕ
  /-- the strings that are allocated -/
  live : List ℕ
  /-- the allocations so far -/
  k : ℕ
  /-- the options that were carried out -/
  applied : List (List Char)
deriving DecidableEq

/-- the loop goes on, or the function returns -/
inductive ParseStep where
  | next (st : ParseSt)
  | ret (r : ℤ) (st : ParseSt)

/-- one turn of the loop, for the option `p` -/
def parseToken (isVfat : Bool) (mem : ℕ → Bool) (st : ParseSt) (p : List Char) : ParseStep :=
  let token := (optionToken isVfat p).1
  let arg := (optionToken isVfat p).2.headD []
  match token.numberBase with
  | some base =>
    match matchNumber mem st.k arg base with
    | none => .ret 0 { st with k := st.k + 1 }
    | some option =>
      .next { st with opts := st.opts.setNumber token option, k := st.k + 1, applied := st.applied ++ [p] }
  | none =>
    if token = .charset then
      let live := match st.node with
        | none => st.live
        | some n => st.live.erase n -- `kfree`
      if mem st.k then
        .next { opts := { st.opts with iocharset := some arg }, node := some st.k, live := st.k :: live, k := st.k + 1,
                applied := st.applied ++ [p] }
      else .ret (- (ENOMEM : ℤ)) { st with live := live, k := st.k + 1 }
    else if token = .err then .ret (- (EINVAL : ℤ)) st
    else .next { st with opts := st.opts.setFlag isVfat token, applied := st.applied ++ [p] }

/-- the loop over the strings between the commas -/
def parseLoop (isVfat : Bool) (mem : ℕ → Bool) : List (List Char) → ParseSt → ℤ × ParseSt
  | [], st => (0, { st with opts := st.opts.finish })
  | p :: ps, st =>
    if p = [] then parseLoop isVfat mem ps st
    else
      match parseToken isVfat mem st p with
      | .next st => parseLoop isVfat mem ps st
      | .ret r st => (r, st)

/-- `parse_options`; no options are NULL -/
def parseOptions (isVfat : Bool) (oenv : OptionEnv) (mem : ℕ → Bool) (options : Option (List Char)) : ℤ × ParseSt :=
  let st := ⟨optionDefaults isVfat oenv, none, [], 0, []⟩
  match options with
  | none => (0, { st with opts := st.opts.finish })
  | some s => parseLoop isVfat mem (s.splitOn ',') st

/-! ## All or nothing -/

/-- the options of a string: what is between its commas, and not empty -/
def optionList : Option (List Char) → List (List Char)
  | none => []
  | some s => (s.splitOn ',').filter (· ≠ [])

/-- what an option sets, were there memory for everything -/
def setOption (isVfat : Bool) (opts : FatMountOptions) (p : List Char) : FatMountOptions :=
  let token := (optionToken isVfat p).1
  let arg := (optionToken isVfat p).2.headD []
  match token.numberBase with
  | some base => opts.setNumber token (int32 (simpleStrtol arg base).1)
  | none => if token = .charset then { opts with iocharset := some arg } else opts.setFlag isVfat token

/-- success means that every option was known, all were carried out from left to right, and the rest was made from them; an
error leaves `iocharset` as the default or as a string that is still allocated -/
structure AllOrNothing (isVfat : Bool) (oenv : OptionEnv) (options : Option (List Char)) (r : ℤ × ParseSt) : Prop where
  known : r.1 = 0 → ∀ p ∈ optionList options, (optionToken isVfat p).1 ≠ .err
  applied : r.1 = 0 → r.2.applied = optionList options
  opts : r.1 = 0 → r.2.opts = ((optionList options).foldl (setOption isVfat) (optionDefaults isVfat oenv)).finish
  utime : r.1 = 0 → r.2.opts.allowUtime ≠ UTIME_UNSET
  utf8 : r.1 = 0 → ¬ (r.2.opts.utf8 = true ∧ r.2.opts.unicodeXlate = true)
  iocharset : r.1 ≠ 0 → ∀ n, r.2.node = some n → n ∈ r.2.live

/-- for the options `ps` from the k-th allocation on: no number fails to be converted, and no `iocharset=` finds no memory
after another one (`held`). The options behind an unknown one, or behind a first `iocharset=` without memory, do not count. -/
def ParseFits (isVfat : Bool) (mem : ℕ → Bool) : List (List Char) → ℕ → Bool → Prop
  | [], _, _ => True
  | p :: ps, k, held =>
    let token := (optionToken isVfat p).1
    let arg := (optionToken isVfat p).2.headD []
    match token.numberBase with
    | some base => matchNumber mem k arg base ≠ none ∧ ParseFits isVfat mem ps (k + 1) held
    | none =>
      if token = .charset then
        if mem k then ParseFits isVfat mem ps (k + 1) true else held = false
      else if token = .err then True
      else ParseFits isVfat mem ps k held

section
variable {isVfat : Bool} {mem : ℕ → Bool}

theorem finish_utime (opts : FatMountOptions) : opts.finish.allowUtime ≠ UTIME_UNSET := by
  have hmask : ∀ x : UInt16, x &&& S_IWGRP_IWOTH ≠ UTIME_UNSET := by
    intro x h
    have hle : (x &&& S_IWGRP_IWOTH).toNat ≤ 0x12 := by
      rw [UInt16.toNat_and]
      exact Nat.and_le_right
    rw [h] at hle
    exact absurd hle (by decide)
  unfold FatMountOptions.finish
  simp only
  split_ifs with h1 h2
  · exact hmask _
  · exact hmask _
  · exact h1
  · exact h1

theorem finish_utf8 (opts : FatMountOptions) : ¬ (opts.finish.utf8 = true ∧ opts.finish.unicodeXlate = true) := by
  have hlast : ∀ o : FatMountOptions, ¬ ((if o.unicodeXlate then { o with utf8 := false } else o).utf8 = true ∧
      (if o.unicodeXlate then { o with utf8 := false } else o).unicodeXlate = true) := by
    intro o
    by_cases hx : o.unicodeXlate = true
    · rw [if_pos hx]
      intro h
      exact Bool.false_ne_true h.1
    · rw [if_neg hx]
      intro h
      exact hx h.2
  exact hlast _

/-- empty strings are passed over -/
theorem parseLoop_filter (ps : List (List Char)) : ∀ st : ParseSt,
    parseLoop isVfat mem ps st = parseLoop isVfat mem (ps.filter (· ≠ [])) st := by
  induction ps with
  | nil =>
    intro _
    exact rfl
  | cons p ps ih =>
    intro st
    by_cases hp : p = []
    · rw [List.filter_cons_of_neg (by simpa using hp), parseLoop, if_pos hp]
      exact ih st
    · rw [List.filter_cons_of_pos (by simpa using hp), parseLoop, if_neg hp, parseLoop, if_neg hp]
      cases parseToken isVfat mem st p with
      | next st => exact ih st
      | ret r st => rfl

/-! ## One option -/

/-- what one turn of the loop does -/
inductive Turn (isVfat : Bool) (mem : ℕ → Bool) (st : ParseSt) (p : List Char) : ParseStep → Prop
  /-- the option is carried out -/
  | carriedOut {st' : ParseSt} : (optionToken isVfat p).1 ≠ .err → st'.opts = setOption isVfat st.opts p →
      st'.applied = st.applied ++ [p] → st'.live = st'.node.toList →
      (∀ ps, ParseFits isVfat mem (p :: ps) st.k st.node.isSome ↔ ParseFits isVfat mem ps st'.k st'.node.isSome) →
      Turn isVfat mem st p (.next st')
  /-- the loop is left with an error and a sound heap -/
  | refused {r : ℤ} {st' : ParseSt} : r ≠ 0 → st'.live = st'.node.toList →
      (∀ ps, ParseFits isVfat mem (p :: ps) st.k st.node.isSome) → Turn isVfat mem st p (.ret r st')
  /-- a number that is not converted -/
  | silent {st' : ParseSt} : st'.applied = st.applied →
      (∀ ps, ¬ ParseFits isVfat mem (p :: ps) st.k st.node.isSome) → Turn isVfat mem st p (.ret 0 st')
  /-- the string was freed, and there is no new one -/
  | freed {r : ℤ} {st' : ParseSt} {n : ℕ} : r ≠ 0 → st'.node = some n → n ∉ st'.live →
      (∀ ps, ¬ ParseFits isVfat mem (p :: ps) st.k st.node.isSome) → Turn isVfat mem st p (.ret r st')

/-- an option that takes a number -/
theorem number_turn {st : ParseSt} {p : List Char} {base : ℕ} (hlive : st.live = st.node.toList)
    (hbase : (optionToken isVfat p).1.numberBase = some base) : Turn isVfat mem st p (parseToken isVfat mem st p) := by
  have herr : (optionToken isVfat p).1 ≠ .err := by
    intro h
    rw [h] at hbase
    cases hbase
  unfold parseToken
  simp only [hbase]
  cases hnum : matchNumber mem st.k ((optionToken isVfat p).2.headD []) base with
  | none =>
    refine .silent rfl fun ps hfits => ?_
    simp only [ParseFits, hbase] at hfits
    exact hfits.1 hnum
  | some option =>
    have hval : option = int32 (simpleStrtol ((optionToken isVfat p).2.headD []) base).1 := by
      unfold matchNumber at hnum
      split_ifs at hnum
      exact (Option.some.inj hnum).symm
    refine .carriedOut herr ?_ rfl hlive fun ps => ?_
    · simp only [setOption, hbase, hval]
    · simp only [ParseFits, hbase, hnum]
      exact and_iff_right (by simp)

/-- `iocharset=` -/
theorem charset_turn {st : ParseSt} {p : List Char} (hlive : st.live = st.node.toList)
    (hbase : (optionToken isVfat p).1.numberBase = none) (hc : (optionToken isVfat p).1 = .charset) :
    Turn isVfat mem st p (parseToken isVfat mem st p) := by
  have hkfree : (match st.node with
      | none => st.live
      | some n => st.live.erase n) = [] := by
    rw [hlive]
    cases st.node with
    | none => rfl
    | some n => simp
  unfold parseToken
  simp only [hbase, if_pos hc, hkfree]
  by_cases hk : mem st.k = true
  · rw [if_pos hk]
    refine .carriedOut (by rw [hc]; decide) ?_ rfl rfl fun ps => ?_
    · simp only [setOption, hbase, if_pos hc]
    · simp only [ParseFits, hbase, if_pos hc, if_pos hk, Option.isSome_some]
  · rw [if_neg hk]
    have hfits : ∀ ps, ParseFits isVfat mem (p :: ps) st.k st.node.isSome ↔ st.node.isSome = false := by
      intro ps
      simp only [ParseFits, hbase, if_pos hc, if_neg hk]
    cases hnode : st.node with
    | none =>
      exact .refused (by decide) rfl fun ps => (hfits ps).2 (by rw [hnode]; rfl)
    | some n =>
      refine .freed (by decide) rfl List.not_mem_nil fun ps h => ?_
      have hno := (hfits ps).1 h
      rw [hnode] at hno
      cases hno

/-- **One turn.** -/
theorem parseToken_turn {st : ParseSt} (p : List Char) (hlive : st.live = st.node.toList) :
    Turn isVfat mem st p (parseToken isVfat mem st p) := by
  cases hbase : (optionToken isVfat p).1.numberBase with
  | some base => exact number_turn hlive hbase
  | none =>
    by_cases hc : (optionToken isVfat p).1 = .charset
    · exact charset_turn hlive hbase hc
    · unfold parseToken
      simp only [hbase, if_neg hc]
      by_cases herr : (optionToken isVfat p).1 = .err
      · rw [if_pos herr]
        refine .refused (by decide) hlive fun ps => ?_
        simp only [ParseFits, hbase, if_neg hc, if_pos herr]
      · rw [if_neg herr]
        refine .carriedOut herr ?_ rfl hlive fun ps => ?_
        · simp only [setOption, hbase, if_neg hc]
        · simp only [ParseFits, hbase, if_neg hc, if_neg herr]

/-! ## The loop -/

/-- how a run of the loop over the options `ps` ends -/
inductive Ends (isVfat : Bool) (st : ParseSt) (ps : List (List Char)) (fits : Prop) (r : ℤ × ParseSt) : Prop
  | parsed : fits → r.1 = 0 → (∀ p ∈ ps, (optionToken isVfat p).1 ≠ .err) → r.2.applied = st.applied ++ ps →
      r.2.opts = (ps.foldl (setOption isVfat) st.opts).finish → Ends isVfat st ps fits r
  | refused : fits → r.1 ≠ 0 → r.2.live = r.2.node.toList → Ends isVfat st ps fits r
  | silent : ¬ fits → r.1 = 0 → r.2.applied.length < st.applied.length + ps.length → Ends isVfat st ps fits r
  | freed {n : ℕ} : ¬ fits → r.1 ≠ 0 → r.2.node = some n → n ∉ r.2.live → Ends isVfat st ps fits r

theorem parseLoop_spec (ps : List (List Char)) : ∀ st : ParseSt, (∀ p ∈ ps, p ≠ []) → st.live = st.node.toList →
    Ends isVfat st ps (ParseFits isVfat mem ps st.k st.node.isSome) (parseLoop isVfat mem ps st) := by
  induction ps with
  | nil =>
    intro st _ _
    exact .parsed trivial rfl (fun _ h => absurd h List.not_mem_nil) (List.append_nil _).symm rfl
  | cons p ps ih =>
    intro st hne hlive
    rw [parseLoop, if_neg (hne p List.mem_cons_self)]
    have hturn : Turn isVfat mem st p (parseToken isVfat mem st p) := parseToken_turn p hlive
    cases hstep : parseToken isVfat mem st p with
    | next st' =>
      rw [hstep] at hturn
      change Ends isVfat st (p :: ps) _ (parseLoop isVfat mem ps st')
      cases hturn with
      | carriedOut hknown hopts happ hlive' hfits =>
        rw [propext (hfits ps)]
        cases ih st' (fun q hq => hne q (List.mem_cons_of_mem p hq)) hlive' with
        | parsed hf hret hall happ' hopts' =>
          refine .parsed hf hret (fun q hq => ?_) ?_ ?_
          · rcases List.mem_cons.1 hq with rfl | hq
            · exact hknown
            · exact hall q hq
          · rw [happ', happ, List.append_assoc, List.singleton_append]
          · rw [hopts', hopts, List.foldl_cons]
        | refused hf hret hheap => exact .refused hf hret hheap
        | silent hf hret hlen =>
          refine .silent hf hret ?_
          rw [happ, List.length_append, List.length_singleton] at hlen
          rw [List.length_cons]
          omega
        | freed hf hret hnode hdead => exact .freed hf hret hnode hdead
    | ret r st' =>
      rw [hstep] at hturn
      cases hturn with
      | refused hr hheap hfits => exact .refused (hfits ps) hr hheap
      | silent happ hfits =>
        refine .silent (hfits ps) rfl ?_
        rw [happ, List.length_cons]
        omega
      | freed hr hnode hdead hfits => exact .freed (hfits ps) hr hnode hdead

/-- **Parsing is all or nothing** if and only if no number that is reached fails to be converted, and no `iocharset=` that is
reached finds no memory after another one has been stored. -/
theorem parseOptions_right_iff (isVfat : Bool) (oenv : OptionEnv) (mem : ℕ → Bool) (options : Option (List Char)) :
    AllOrNothing isVfat oenv options (parseOptions isVfat oenv mem options) ↔
      ParseFits isVfat mem (optionList options) 0 false := by
  have hloop : parseOptions isVfat oenv mem options =
      parseLoop isVfat mem (optionList options) ⟨optionDefaults isVfat oenv, none, [], 0, []⟩ := by
    cases options with
    | none => rfl
    | some s => exact parseLoop_filter _ _
  have hne : ∀ p ∈ optionList options, p ≠ [] := by
    intro p hp
    cases options with
    | none => exact absurd hp List.not_mem_nil
    | some s => simpa using (List.mem_filter.1 hp).2
  rw [hloop]
  cases @parseLoop_spec isVfat mem (optionList options) ⟨optionDefaults isVfat oenv, none, [], 0, []⟩ hne rfl with
  | parsed hf hret hknown happ hopts =>
    refine iff_of_true ⟨fun _ => hknown, fun _ => happ, fun _ => hopts, fun _ => ?_, fun _ => ?_, fun h => absurd hret h⟩ hf
    · rw [hopts]
      exact finish_utime _
    · rw [hopts]
      exact finish_utf8 _
  | refused hf hret hheap =>
    refine iff_of_true ⟨fun h => absurd h hret, fun h => absurd h hret, fun h => absurd h hret, fun h => absurd h hret,
      fun h => absurd h hret, fun _ n hn => ?_⟩ hf
    rw [hheap, hn]
    exact List.mem_singleton_self n
  | silent hf hret hlen =>
    refine iff_of_false (fun h => ?_) hf
    rw [h.applied hret, List.length_nil, Nat.zero_add] at hlen
    exact absurd hlen (lt_irrefl _)
  | freed hf hret hnode hdead => exact iff_of_false (fun h => hdead (h.iocharset hret _ hnode)) hf

/-- without memory for the number of `uid=1`, the unknown option behind it is not seen and the answer is 0 -/
theorem parseOptions_number_fails : ¬ AllOrNothing true ⟨0, 0, 18, 437⟩ (some "uid=1,foo".toList)
    (parseOptions true ⟨0, 0, 18, 437⟩ (fun _ => false) (some "uid=1,foo".toList)) := by
  intro h
  exact absurd (h.applied (by decide)) (by decide)

end

end AtsLdd.Fat
