import Mathlib.Tactic

/-!
# The command line

`os_opt_parse` of `extcap.c` on the table of `parse_command_line`. The
table mixes options with headings for the help text: rows with a name
and no target. The lookups do not tell them apart, so an argument that
names a heading makes the parser store through a null pointer.

`osOptParse_safe_iff` says which command lines reach such a store:
complete options, and then an argument that names a heading
(`Reaches`). On all others the parser stops with an error or returns
with stores of the right type through the targets of its options.
-/

namespace UsbSniffer.Extcap

/-- A C string. -/
structure CString where
  bytes : List UInt8
  no_nul : 0 ∉ bytes
deriving Repr, DecidableEq

/-- The bytes of a string literal. -/
def bytesOf (text : String) : List UInt8 := text.toList.map (fun c => c.toNat.toUInt8)

/-- `'-'` and `'='`. -/
def dash : UInt8 := 0x2D

def equals : UInt8 := 0x3D

/-- The fields of `Options` that the table points to. -/
inductive Field where
  | help
  | speed
  | foldEmpty
  | excludeLineState
  | limit
  | trigger
  | test
  | extcapVersion
  | extcapDlts
  | extcapInterfaces
  | extcapInterface
  | extcapConfig
  | extcapCapture
  | extcapFifo
  | replay
  | mcuSram
  | mcuEeprom
  | fpgaSram
  | fpgaFlash
  | fpgaErase
deriving Repr, DecidableEq

/-- Whether the field is a `char *`; the others are `bool`. -/
def Field.isString : Field → Bool
  | .speed | .limit | .trigger | .extcapInterface | .extcapFifo | .replay => true
  | .mcuSram | .mcuEeprom | .fpgaSram | .fpgaFlash => true
  | .help | .foldEmpty | .excludeLineState | .test => false
  | .extcapVersion | .extcapDlts | .extcapInterfaces | .extcapConfig | .extcapCapture => false
  | .fpgaErase => false

/-- `OsOption`; a null pointer is `none`. -/
structure OsOption where
  shortName : UInt8
  longName : Option (List UInt8)
  argName : Option (List UInt8)
  value : Option Field
deriving Repr, DecidableEq

/-- `opt->value || opt->short_name` fails: the row that ends the table. -/
def OsOption.last (opt : OsOption) : Bool := opt.value.isNone && opt.shortName == 0

/-- `find_long_option`. -/
def findLongOption : List OsOption → List UInt8 → Option OsOption
  | [], _ => none
  | opt :: rest, text =>
      if opt.last then none
      else if opt.longName = some text then some opt
      else findLongOption rest text

/-- `find_short_option`. -/
def findShortOption : List OsOption → UInt8 → Option OsOption
  | [], _ => none
  | opt :: rest, chr =>
      if opt.last then none
      else if opt.shortName = chr then some opt
      else findShortOption rest chr

/-- What is stored: a string pointer or `true`. -/
inductive Stored where
  | string (text : List UInt8)
  | flag
deriving Repr, DecidableEq

/-- A store through the target of an option. -/
structure Store where
  target : Field
  stored : Stored
deriving Repr, DecidableEq

/-- The variables of the loop, and the stores so far. -/
structure State where
  stores : List Store
  argOpt : Option OsOption
  shortOpt : Bool
deriving Repr, DecidableEq

/-- How an argument ends: on to the next one, an error with its format
and the bytes it prints, or a store through a null pointer. -/
inductive Step where
  | next (s : State)
  | error (format : String) (shown : List UInt8)
  | nullStore
deriving Repr, DecidableEq

/-- `*opt->value = …`, and what follows it. -/
def storeTo (opt : OsOption) (stored : Stored) (s : State) (next : State → Step) : Step :=
  match opt.value with
  | none => .nullStore
  | some target => next { s with stores := s.stores ++ [⟨target, stored⟩] }

/-- The text of `--name=value` up to the `=`. -/
def optionName (arg : List UInt8) : List UInt8 := (arg.takeWhile (· ≠ equals)).drop 2

/-- `&value[1]`, where there is an `=`. -/
def inlineValue (arg : List UInt8) : Option (List UInt8) :=
  if equals ∈ arg then some ((arg.dropWhile (· ≠ equals)).drop 1) else none

/-- The branch for `--name`. -/
def longOption (options : List OsOption) (arg : List UInt8) (s : State) : Step :=
  match findLongOption options (optionName arg) with
  | none => .error "unrecognized option: %s" (arg.takeWhile (· ≠ equals))
  | some opt =>
      let done := fun s : State => Step.next { s with shortOpt := false }
      match inlineValue arg with
      | some value =>
          if opt.argName.isSome then storeTo opt (.string value) s done
          else storeTo opt .flag s done
      | none =>
          if opt.argName.isSome then done { s with argOpt := some opt }
          else storeTo opt .flag s done

/-- The loop over the letters of `-abc`. -/
def shortOptions (options : List OsOption) : List UInt8 → State → Step
  | [], s => .next { s with shortOpt := true }
  | chr :: rest, s =>
      match s.argOpt with
      | some opt => .error "option -%c requires an argument" [opt.shortName]
      | none =>
          match findShortOption options chr with
          | none => .error "unrecognized option: -%c" [chr]
          | some opt =>
              if opt.argName.isSome then shortOptions options rest { s with argOpt := some opt }
              else storeTo opt .flag s (shortOptions options rest)

/-- One turn of the loop for an argument that starts with a dash. -/
def optionArg (options : List OsOption) (arg : List UInt8) (s : State) : Step :=
  match arg.drop 1 with
  | [] => .error "expected option name" []
  | chr :: rest =>
      if chr = dash then longOption options arg s else shortOptions options (chr :: rest) s

/-- How the parse ends. -/
inductive Outcome where
  | returned (index : Nat) (stores : List Store)
  | error (format : String) (shown : List UInt8)
  | nullStore
deriving Repr, DecidableEq

/-- Behind the loop: an option that still waits for its argument. -/
def finish (index : Nat) (s : State) : Outcome :=
  match s.argOpt with
  | none => .returned index s.stores
  | some opt =>
      if s.shortOpt then .error "option -%c requires an argument" [opt.shortName]
      else .error "option --%s requires an argument" (opt.longName.getD [])

/-- `arg[0] == '-'`. -/
def CString.dashed (arg : CString) : Prop := arg.bytes.head? = some dash

instance (arg : CString) : Decidable arg.dashed := by
  unfold CString.dashed
  infer_instance

/-- The loop of `os_opt_parse`, `i` the index of the first argument
left. -/
def parseFrom (options : List OsOption) : List CString → Nat → State → Outcome
  | [], i, s => finish i s
  | arg :: rest, i, s =>
      let turn : Step → Outcome := fun r =>
        match r with
        | .next s => parseFrom options rest (i + 1) s
        | .error format shown => .error format shown
        | .nullStore => .nullStore
      match s.argOpt with
      | some opt =>
          -- `break`: the error behind the loop
          if arg.dashed then finish (i + 1 + rest.length) s
          else turn (storeTo opt (.string arg.bytes) s (fun s => .next { s with argOpt := none }))
      | none =>
          if arg.dashed then turn (optionArg options arg.bytes s)
          else .returned i s.stores

/-- `os_opt_parse`; `args` are the arguments behind the program name. -/
def osOptParse (options : List OsOption) (args : List CString) : Outcome :=
  parseFrom options args 1 ⟨[], none, false⟩

/-! ## The table of `parse_command_line` -/

/-- A heading of the help text. -/
def heading (title : String) : OsOption := ⟨1, some (bytesOf title), none, none⟩

/-- An option without an argument. -/
def flagRow (shortName : UInt8) (longName : String) (value : Field) : OsOption :=
  ⟨shortName, some (bytesOf longName), none, some value⟩

/-- An option with one. -/
def argRow (shortName : UInt8) (longName argName : String) (value : Field) : OsOption :=
  ⟨shortName, some (bytesOf longName), some (bytesOf argName), some value⟩

/-- `options`, the row of zeros at its end. -/
def options : List OsOption :=
  [
    heading "General:",
    flagRow 0x68 "help" .help,
    heading "Capture:",
    argRow 0x73 "speed" "speed" .speed,
    flagRow 0x6C "fold" .foldEmpty,
    flagRow 0x65 "exclude" .excludeLineState,
    argRow 0x6E "limit" "number" .limit,
    argRow 0x74 "trigger" "type" .trigger,
    flagRow 0 "test" .test,
    heading "Wireshark extcap:",
    flagRow 0 "extcap-version" .extcapVersion,
    flagRow 0 "extcap-dlts" .extcapDlts,
    flagRow 0 "extcap-interfaces" .extcapInterfaces,
    argRow 0 "extcap-interface" "name" .extcapInterface,
    flagRow 0 "extcap-config" .extcapConfig,
    flagRow 0x63 "capture" .extcapCapture,
    argRow 0x66 "fifo" "name" .extcapFifo,
    heading "Development:",
    argRow 0 "replay" "file" .replay,
    heading "Firmware update (gen1):",
    argRow 0 "mcu-sram" "name" .mcuSram,
    argRow 0 "mcu-eeprom" "name" .mcuEeprom,
    argRow 0 "fpga-sram" "name" .fpgaSram,
    argRow 0 "fpga-flash" "name" .fpgaFlash,
    flagRow 0 "fpga-erase" .fpgaErase,
    ⟨0, none, none, none⟩
  ]

/-! ## What an argument names -/

/-- What an argument with a dash is to a parser that waits for nothing:
complete, followed by its own argument, naming a heading, or an
error. -/
inductive Kind where
  | whole
  | awaits
  | heading
  | wrong
deriving Repr, DecidableEq

/-- A row without an argument is a flag or a heading. -/
def flagKind (opt : OsOption) : Kind := if opt.value.isNone then .heading else .whole

/-- The kind of `--name` and `--name=value`. -/
def longKind (options : List OsOption) (arg : List UInt8) : Kind :=
  match findLongOption options (optionName arg) with
  | none => .wrong
  | some opt =>
      if opt.argName.isNone then flagKind opt
      else if equals ∈ arg then .whole
      else .awaits

/-- The kind of `-abc`, from its letters. -/
def lettersKind (options : List OsOption) : List UInt8 → Kind
  | [] => .whole
  | chr :: rest =>
      match findShortOption options chr with
      | none => .wrong
      | some opt =>
          if opt.argName.isSome then (if rest = [] then .awaits else .wrong)
          else
            match flagKind opt with
            | .whole => lettersKind options rest
            | k => k

def argKind (options : List OsOption) (arg : List UInt8) : Kind :=
  match arg.drop 1 with
  | [] => .wrong
  | chr :: rest =>
      if chr = dash then longKind options arg else lettersKind options (chr :: rest)

/-- **The command lines that reach a heading**: complete options, and
then an argument that names one. -/
inductive Reaches (options : List OsOption) : List CString → Prop where
  | heading {arg rest} : arg.dashed → argKind options arg.bytes = .heading →
      Reaches options (arg :: rest)
  | whole {arg rest} : arg.dashed → argKind options arg.bytes = .whole →
      Reaches options rest → Reaches options (arg :: rest)
  | pair {arg value rest} : arg.dashed → argKind options arg.bytes = .awaits →
      ¬ value.dashed → Reaches options rest → Reaches options (arg :: value :: rest)

/-- A store through the target of an option: a string exactly when the
option has an argument, and what the field holds. -/
def Store.Typed (options : List OsOption) (st : Store) : Prop :=
  ∃ opt ∈ options, opt.value = some st.target ∧
    ((∃ text, st.stored = .string text) ↔ opt.argName.isSome = true) ∧
    ((∃ text, st.stored = .string text) ↔ st.target.isString = true)

/-- Stopped with an error, or returned with typed stores. -/
def Outcome.Safe (options : List OsOption) : Outcome → Prop
  | .returned _ stores => ∀ st ∈ stores, st.Typed options
  | .error _ _ => True
  | .nullStore => False

/-! ## One argument -/

/-- Options with an argument have a target, and a target is of the type
of its option. -/
structure WellTyped (options : List OsOption) : Prop where
  args_have_value : ∀ opt ∈ options, opt.argName.isSome = true → opt.value.isSome = true
  typed : ∀ opt ∈ options, ∀ f, opt.value = some f → f.isString = opt.argName.isSome

section
variable {options : List OsOption}

theorem findLongOption_mem {text : List UInt8} {opt : OsOption}
    (h : findLongOption options text = some opt) : opt ∈ options := by
  induction options with
  | nil => cases h
  | cons row rest ih =>
      rw [findLongOption] at h
      split at h
      · cases h
      · split at h
        · cases h
          exact List.mem_cons_self
        · exact List.mem_cons_of_mem _ (ih h)

theorem findShortOption_mem {chr : UInt8} {opt : OsOption}
    (h : findShortOption options chr = some opt) : opt ∈ options := by
  induction options with
  | nil => cases h
  | cons row rest ih =>
      rw [findShortOption] at h
      split at h
      · cases h
      · split at h
        · cases h
          exact List.mem_cons_self
        · exact List.mem_cons_of_mem _ (ih h)

/-- The stores so far, and a pending option with a target. -/
structure State.Good (options : List OsOption) (s : State) : Prop where
  typed : ∀ st ∈ s.stores, st.Typed options
  pending : ∀ opt, s.argOpt = some opt → opt ∈ options ∧ opt.argName.isSome = true

/-- A store keeps the state good. -/
theorem State.Good.store {s : State} (h : s.Good options) {opt : OsOption} (hopt : opt ∈ options)
    (ht : WellTyped options) {target : Field} (hv : opt.value = some target) {stored : Stored}
    (hst : (∃ text, stored = .string text) ↔ opt.argName.isSome = true) :
    State.Good options { s with stores := s.stores ++ [⟨target, stored⟩] } := by
  constructor
  · intro st hmem
    rw [List.mem_append, List.mem_singleton] at hmem
    obtain hold | rfl := hmem
    · exact h.typed st hold
    · exact ⟨opt, hopt, hv, hst, by rw [ht.typed opt hopt target hv]; exact hst⟩
  · exact h.pending

/-- What a turn does, as its kind says. -/
def Step.Does (options : List OsOption) (k : Kind) (r : Step) : Prop :=
  match k with
  | .whole => ∃ s', r = .next s' ∧ s'.argOpt = none ∧ s'.Good options
  | .awaits => ∃ s' opt, r = .next s' ∧ s'.argOpt = some opt ∧ s'.Good options
  | .heading => r = .nullStore
  | .wrong => ∃ format shown, r = .error format shown

/-- A flag is stored, unless it is a heading. -/
theorem storeTo_flag (ht : WellTyped options) {s : State} (h : s.Good options)
    (hs : s.argOpt = none) {opt : OsOption} (hopt : opt ∈ options) (harg : opt.argName.isSome ≠ true)
    {k : Kind} {next : State → Step}
    (hnext : ∀ s' : State, s'.Good options → s'.argOpt = none → Step.Does options k (next s')) :
    Step.Does options (match flagKind opt with | .whole => k | k' => k') (storeTo opt .flag s next) := by
  cases hv : opt.value with
  | none =>
      have hkind : flagKind opt = .heading := by rw [flagKind, hv]; rfl
      rw [hkind, storeTo, hv]
      rfl
  | some target =>
      have hkind : flagKind opt = .whole := by rw [flagKind, hv]; rfl
      have hst : (∃ text, Stored.flag = .string text) ↔ opt.argName.isSome = true := by
        constructor
        · rintro ⟨text, htext⟩
          cases htext
        · intro hsome
          exact absurd hsome harg
      rw [hkind, storeTo, hv]
      exact hnext _ (h.store hopt ht hv hst) hs

theorem State.Good.await {s : State} (h : s.Good options) {opt : OsOption} (hopt : opt ∈ options)
    (harg : opt.argName.isSome = true) : State.Good options { s with argOpt := some opt } := by
  refine ⟨h.typed, ?_⟩
  intro opt' heq
  cases heq
  exact ⟨hopt, harg⟩

/-- **A cluster of letters** does what its kind says. -/
theorem shortOptions_does (ht : WellTyped options) (letters : List UInt8) {s : State}
    (h : s.Good options) (hs : s.argOpt = none) :
    Step.Does options (lettersKind options letters) (shortOptions options letters s) := by
  induction letters generalizing s with
  | nil => exact ⟨_, rfl, hs, ⟨h.typed, h.pending⟩⟩
  | cons chr rest ih =>
      rw [lettersKind, shortOptions, hs]
      cases hfind : findShortOption options chr with
      | none => exact ⟨_, _, rfl⟩
      | some opt =>
          have hopt := findShortOption_mem hfind
          by_cases harg : opt.argName.isSome = true
          · have hgood := h.await hopt harg
            simp only [harg, if_true]
            cases rest with
            | nil =>
                rw [if_pos rfl]
                exact ⟨_, opt, rfl, rfl, ⟨hgood.typed, hgood.pending⟩⟩
            | cons chr' rest =>
                rw [if_neg (List.cons_ne_nil _ _)]
                exact ⟨_, _, rfl⟩
          · simp only [harg, Bool.false_eq_true, if_false]
            exact storeTo_flag ht h hs hopt harg (fun s' hs' hnone => ih hs' hnone)

/-- **A long option** does what its kind says. -/
theorem longOption_does (ht : WellTyped options) (arg : List UInt8) {s : State}
    (h : s.Good options) (hs : s.argOpt = none) :
    Step.Does options (longKind options arg) (longOption options arg s) := by
  rw [longKind, longOption]
  cases hfind : findLongOption options (optionName arg) with
  | none => exact ⟨_, _, rfl⟩
  | some opt =>
      have hopt := findLongOption_mem hfind
      have hdone : ∀ s' : State, s'.Good options → s'.argOpt = none →
          Step.Does options .whole (Step.next { s' with shortOpt := false }) := by
        intro s' hs' hnone
        exact ⟨_, rfl, hnone, ⟨hs'.typed, hs'.pending⟩⟩
      by_cases harg : opt.argName.isSome = true
      · have hno : opt.argName.isNone = false := by rw [Option.isNone_eq_false_iff]; exact harg
        simp only [hno, Bool.false_eq_true, if_false, harg, if_true, inlineValue]
        by_cases hinline : equals ∈ arg
        · obtain ⟨target, hv⟩ := Option.isSome_iff_exists.mp (ht.args_have_value opt hopt harg)
          rw [if_pos hinline, if_pos hinline]
          simp only [storeTo, hv]
          exact hdone _ (h.store hopt ht hv ⟨fun _ => harg, fun _ => ⟨_, rfl⟩⟩) hs
        · have hgood := h.await hopt harg
          rw [if_neg hinline, if_neg hinline]
          exact ⟨_, opt, rfl, rfl, ⟨hgood.typed, hgood.pending⟩⟩
      · have hyes : opt.argName.isNone = true := by
          rw [Bool.not_eq_true, Option.isSome_eq_false_iff] at harg
          exact harg
        have hflag := storeTo_flag ht h hs hopt harg hdone
        have hkind : (match flagKind opt with | .whole => Kind.whole | k => k) = flagKind opt := by
          cases flagKind opt <;> rfl
        rw [hkind] at hflag
        simp only [hyes, if_true, harg, Bool.false_eq_true, if_false, inlineValue]
        by_cases hinline : equals ∈ arg
        · rw [if_pos hinline]
          exact hflag
        · rw [if_neg hinline]
          exact hflag

theorem optionArg_does (ht : WellTyped options) (arg : List UInt8) {s : State}
    (h : s.Good options) (hs : s.argOpt = none) :
    Step.Does options (argKind options arg) (optionArg options arg s) := by
  rw [argKind, optionArg]
  cases arg.drop 1 with
  | nil => exact ⟨_, _, rfl⟩
  | cons chr rest =>
      by_cases hdash : chr = dash
      · simp only [if_pos hdash]
        exact longOption_does ht arg h hs
      · simp only [if_neg hdash]
        exact shortOptions_does ht (chr :: rest) h hs

/-! ## The whole command line -/

theorem parseFrom_operand {arg : CString} (hdash : ¬ arg.dashed) (rest : List CString) (i : Nat)
    {s : State} (hs : s.argOpt = none) :
    parseFrom options (arg :: rest) i s = .returned i s.stores := by
  simp only [parseFrom, hs, if_neg hdash]

/-- What the rest of the loop makes of a turn. -/
def goOn (options : List OsOption) (rest : List CString) (i : Nat) : Step → Outcome
  | .next s => parseFrom options rest (i + 1) s
  | .error format shown => .error format shown
  | .nullStore => .nullStore

theorem parseFrom_option {arg : CString} (hdash : arg.dashed) (rest : List CString) (i : Nat)
    {s : State} (hs : s.argOpt = none) :
    parseFrom options (arg :: rest) i s =
      goOn options rest i (optionArg options arg.bytes s) := by
  simp only [parseFrom, hs, if_pos hdash]
  cases optionArg options arg.bytes s <;> rfl

/-- A pending option takes the next argument, or the parse ends with an
error. -/
theorem parseFrom_pending (ht : WellTyped options) {s : State} (h : s.Good options) {opt : OsOption}
    (hs : s.argOpt = some opt) (args : List CString) (i : Nat) :
    (∃ format shown, parseFrom options args i s = .error format shown ∧
      ∀ value rest, args = value :: rest → value.dashed) ∨
    ∃ value rest s', args = value :: rest ∧ ¬ value.dashed ∧ s'.argOpt = none ∧ s'.Good options ∧
      parseFrom options args i s = parseFrom options rest (i + 1) s' := by
  have hfinish : ∀ i, ∃ format shown, finish i s = .error format shown := by
    intro i
    simp only [finish, hs]
    split
    · exact ⟨_, _, rfl⟩
    · exact ⟨_, _, rfl⟩
  cases args with
  | nil =>
      obtain ⟨format, shown, herr⟩ := hfinish i
      exact .inl ⟨format, shown, herr, fun value rest heq => by cases heq⟩
  | cons value rest =>
      by_cases hdash : value.dashed
      · obtain ⟨format, shown, herr⟩ := hfinish (i + 1 + rest.length)
        refine .inl ⟨format, shown, ?_, ?_⟩
        · simp only [parseFrom, hs, if_pos hdash, herr]
        · intro value' rest' heq
          cases heq
          exact hdash
      · obtain ⟨hopt, harg⟩ := h.pending opt hs
        obtain ⟨target, hv⟩ := Option.isSome_iff_exists.mp (ht.args_have_value opt hopt harg)
        have htext : (∃ text, Stored.string value.bytes = .string text) ↔ opt.argName.isSome = true :=
          ⟨fun _ => harg, fun _ => ⟨_, rfl⟩⟩
        have hgood := h.store hopt ht hv htext
        refine .inr ⟨value, rest,
          { s with stores := s.stores ++ [⟨target, .string value.bytes⟩], argOpt := none }, rfl, hdash,
          rfl, ⟨hgood.typed, fun opt' heq => by cases heq⟩, ?_⟩
        simp only [parseFrom, hs, if_neg hdash, storeTo, hv]

/-- **Safe, or a heading is reached.** -/
theorem parseFrom_safe_iff (ht : WellTyped options) (args : List CString) (i : Nat) {s : State}
    (h : s.Good options) (hs : s.argOpt = none) :
    (parseFrom options args i s).Safe options ↔ ¬ Reaches options args := by
  induction hn : args.length using Nat.strongRecOn generalizing args i s with
  | _ n ih =>
  cases args with
  | nil =>
      rw [parseFrom, finish, hs]
      constructor
      · intro _ hr
        cases hr
      · intro _
        exact h.typed
  | cons arg rest =>
      have hlen : rest.length < n := by rw [← hn]; exact Nat.lt_succ_self _
      by_cases hdash : arg.dashed
      · have hturn := optionArg_does ht arg.bytes h hs
        rw [parseFrom_option hdash rest i hs]
        cases hkind : argKind options arg.bytes with
        | whole =>
            rw [hkind] at hturn
            obtain ⟨s', heq, hnone, hgood⟩ := hturn
            rw [heq, goOn, ih _ hlen rest (i + 1) hgood hnone rfl, not_iff_not]
            constructor
            · exact Reaches.whole hdash hkind
            · intro hr
              cases hr with
              | heading _ hk => rw [hkind] at hk; cases hk
              | whole _ _ hr => exact hr
              | pair _ hk => rw [hkind] at hk; cases hk
        | awaits =>
            rw [hkind] at hturn
            obtain ⟨s', opt, heq, hsome, hgood⟩ := hturn
            rw [heq, goOn]
            obtain ⟨format, shown, herr, hall⟩ | ⟨value, rest', s'', rfl, hplain, hnone, hgood', hnext⟩ :=
              parseFrom_pending ht hgood hsome rest (i + 1)
            · rw [herr]
              constructor
              · intro _ hr
                cases hr with
                | heading _ hk => rw [hkind] at hk; cases hk
                | whole _ hk _ => rw [hkind] at hk; cases hk
                | pair _ _ hplain _ => exact hplain (hall _ _ rfl)
              · intro _
                exact trivial
            · have hlen' : rest'.length < n := by
                rw [List.length_cons] at hlen
                omega
              rw [hnext, ih _ hlen' rest' (i + 1 + 1) hgood' hnone rfl, not_iff_not]
              constructor
              · exact Reaches.pair hdash hkind hplain
              · intro hr
                cases hr with
                | heading _ hk => rw [hkind] at hk; cases hk
                | whole _ hk _ => rw [hkind] at hk; cases hk
                | pair _ _ _ hr => exact hr
        | heading =>
            rw [hkind] at hturn
            rw [show optionArg options arg.bytes s = .nullStore from hturn, goOn]
            constructor
            · intro hf
              exact False.elim hf
            · intro hr
              exact absurd (Reaches.heading hdash hkind) hr
        | wrong =>
            rw [hkind] at hturn
            obtain ⟨format, shown, heq⟩ := hturn
            rw [heq, goOn]
            constructor
            · intro _ hr
              cases hr with
              | heading _ hk => rw [hkind] at hk; cases hk
              | whole _ hk _ => rw [hkind] at hk; cases hk
              | pair _ hk => rw [hkind] at hk; cases hk
            · intro _
              exact trivial
      · rw [parseFrom_operand hdash rest i hs]
        constructor
        · intro _ hr
          cases hr with
          | heading hd => exact hdash hd
          | whole hd => exact hdash hd
          | pair hd => exact hdash hd
        · intro _
          exact h.typed

end

theorem options_wellTyped : WellTyped options := ⟨by decide +kernel, by decide +kernel⟩

/-- The titles in the table. -/
def headings : List (List UInt8) :=
  [bytesOf "General:", bytesOf "Capture:", bytesOf "Wireshark extcap:", bytesOf "Development:",
    bytesOf "Firmware update (gen1):"]

/-- The letters of the options without argument: `h`, `l`, `e` and
`c`. -/
def flagLetters : List UInt8 := [0x68, 0x6C, 0x65, 0x63]

theorem findLongOption_name {options : List OsOption} {text : List UInt8} {opt : OsOption}
    (h : findLongOption options text = some opt) : opt.longName = some text := by
  induction options with
  | nil => cases h
  | cons row rest ih =>
      rw [findLongOption] at h
      split at h
      · cases h
      · split at h
        · rename_i hname
          cases h
          exact hname
        · exact ih h

/-- A long option names a heading by its title. -/
theorem longKind_heading_iff (arg : List UInt8) :
    longKind options arg = .heading ↔ optionName arg ∈ headings := by
  constructor
  · intro h
    rw [longKind] at h
    split at h
    · cases h
    · rename_i opt hfind
      have hbare : ∀ opt ∈ options, opt.value = none → opt.longName.isSome = true →
          ∃ t ∈ headings, opt.longName = some t := by decide +kernel
      have hname := findLongOption_name hfind
      have hvalue : opt.value = none := by
        split at h
        · rw [flagKind] at h
          split at h
          · rename_i hnone
            exact Option.isNone_iff_eq_none.mp hnone
          · cases h
        · split at h
          · cases h
          · cases h
      obtain ⟨t, ht, heq⟩ := hbare opt (findLongOption_mem hfind) hvalue (by rw [hname]; rfl)
      rw [hname] at heq
      cases heq
      exact ht
  · intro h
    have hfound : ∀ t ∈ headings, ∃ opt, findLongOption options t = some opt ∧
        opt.argName = none ∧ opt.value = none := by
      intro t ht
      have hrow : ∀ t ∈ headings, findLongOption options t = some ⟨1, some t, none, none⟩ := by
        decide +kernel
      exact ⟨_, hrow t ht, rfl, rfl⟩
    obtain ⟨opt, hfind, harg, hvalue⟩ := hfound _ h
    simp only [longKind, hfind, harg, flagKind, hvalue, Option.isNone_none, if_true]

/-- What each letter is; the rows without a short name are out of reach
of a C string. -/
theorem letter_cases {chr : UInt8} (hnul : chr ≠ 0) (rest : List UInt8) :
    (chr ∈ flagLetters ∧ lettersKind options (chr :: rest) = lettersKind options rest) ∨
      (chr = 1 ∧ lettersKind options (chr :: rest) = .heading) ∨
      (chr ∉ flagLetters ∧ chr ≠ 1 ∧ lettersKind options (chr :: rest) ≠ .heading) := by
  have hall : ∀ n : Fin 256, n ≠ 0 → ∀ opt ∈ findShortOption options (UInt8.ofNat n),
      (UInt8.ofNat n ∈ flagLetters ∧ opt.argName = none ∧ opt.value.isNone = false) ∨
      (UInt8.ofNat n = 1 ∧ opt.argName = none ∧ opt.value.isNone = true) ∨
      (UInt8.ofNat n ∉ flagLetters ∧ UInt8.ofNat n ≠ 1 ∧ opt.argName.isSome = true) := by
    decide +kernel
  have hknown : ∀ c ∈ 1 :: flagLetters, (findShortOption options c).isSome = true := by
    decide +kernel
  cases hfind : findShortOption options chr with
  | none =>
      have hunknown : chr ∉ 1 :: flagLetters := by
        intro hin
        have hsome := hknown chr hin
        rw [hfind] at hsome
        cases hsome
      rw [List.mem_cons, not_or] at hunknown
      refine .inr (.inr ⟨hunknown.2, hunknown.1, ?_⟩)
      rw [lettersKind, hfind]
      exact Kind.noConfusion
  | some opt =>
      have hchr := hall ⟨chr.toNat, chr.toNat_lt⟩
        (fun h => hnul (UInt8.toNat_inj.mp (congrArg Fin.val h)))
      rw [UInt8.ofNat_toNat] at hchr
      obtain ⟨hin, harg, hvalue⟩ | ⟨hone, harg, hvalue⟩ | ⟨hnot, hne, harg⟩ := hchr opt hfind
      · refine .inl ⟨hin, ?_⟩
        simp only [lettersKind, hfind, harg, flagKind, hvalue, Option.isSome_none,
          Bool.false_eq_true, if_false]
      · refine .inr (.inl ⟨hone, ?_⟩)
        simp only [lettersKind, hfind, harg, flagKind, hvalue, Option.isSome_none,
          Bool.false_eq_true, if_false, if_true]
      · refine .inr (.inr ⟨hnot, hne, ?_⟩)
        rw [lettersKind]
        simp only [hfind, harg, if_true]
        split
        · exact Kind.noConfusion
        · exact Kind.noConfusion

/-- A cluster names a heading by the byte 1 behind flags. -/
theorem lettersKind_heading_iff {letters : List UInt8} (hnul : 0 ∉ letters) :
    lettersKind options letters = .heading ↔
      ∃ flags rest, letters = flags ++ 1 :: rest ∧ ∀ chr ∈ flags, chr ∈ flagLetters := by
  induction letters with
  | nil =>
      constructor
      · intro h
        cases h
      · rintro ⟨flags, rest, heq, -⟩
        exact absurd heq (by simp)
  | cons chr letters ih =>
      rw [List.mem_cons, not_or] at hnul
      obtain ⟨hin, hkind⟩ | ⟨rfl, hkind⟩ | ⟨hnot, hne, hkind⟩ :=
        letter_cases (fun h => hnul.1 h.symm) letters
      · rw [hkind, ih hnul.2]
        constructor
        · rintro ⟨flags, rest, rfl, hflags⟩
          exact ⟨chr :: flags, rest, rfl, List.forall_mem_cons.mpr ⟨hin, hflags⟩⟩
        · rintro ⟨flags, rest, heq, hflags⟩
          cases flags with
          | nil =>
              cases heq
              exact absurd hin (by decide)
          | cons c flags =>
              cases heq
              exact ⟨flags, rest, rfl, (List.forall_mem_cons.mp hflags).2⟩
      · exact iff_of_true hkind ⟨[], letters, rfl, by simp⟩
      · refine iff_of_false hkind ?_
        rintro ⟨flags, rest, heq, hflags⟩
        cases flags with
        | nil =>
            cases heq
            exact hne rfl
        | cons c flags =>
            cases heq
            exact hnot (hflags chr List.mem_cons_self)

/-- `--title`, `--title=…`, or the byte 1 behind letters of flags. -/
def NamesHeading (arg : CString) : Prop :=
  (arg.bytes.take 2 = [dash, dash] ∧ optionName arg.bytes ∈ headings) ∨
    ∃ flags rest, arg.bytes = dash :: (flags ++ 1 :: rest) ∧ ∀ chr ∈ flags, chr ∈ flagLetters

/-- **Which arguments name a heading.** -/
theorem argKind_heading_iff {arg : CString} (hdash : arg.dashed) :
    argKind options arg.bytes = .heading ↔ NamesHeading arg := by
  obtain ⟨bytes, hnul⟩ := arg
  cases bytes with
  | nil => cases hdash
  | cons c bytes =>
      cases hdash
      rw [List.mem_cons, not_or] at hnul
      have hhead : dash ∉ flagLetters ∧ dash ≠ 1 := by decide
      cases bytes with
      | nil => exact iff_of_false Kind.noConfusion (by simp [NamesHeading])
      | cons chr rest =>
          show (if chr = dash then longKind options (dash :: chr :: rest)
            else lettersKind options (chr :: rest)) = .heading ↔ _
          by_cases hlong : chr = dash
          · subst hlong
            rw [if_pos rfl, longKind_heading_iff]
            constructor
            · intro h
              exact .inl ⟨rfl, h⟩
            · rintro (⟨-, h⟩ | ⟨flags, rest', heq, hflags⟩)
              · exact h
              · cases flags with
                | nil =>
                    cases heq
                | cons c flags =>
                    cases heq
                    exact absurd (hflags dash List.mem_cons_self) hhead.1
          · rw [if_neg hlong, lettersKind_heading_iff hnul.2]
            constructor
            · rintro ⟨flags, rest', heq, hflags⟩
              exact .inr ⟨flags, rest', congrArg (dash :: ·) heq, hflags⟩
            · rintro (⟨htake, -⟩ | ⟨flags, rest', heq, hflags⟩)
              · exact absurd (List.cons.inj (List.cons.inj htake).2).1 hlong
              · exact ⟨flags, rest', (List.cons.inj heq).2, hflags⟩

/-- **Which command lines are parsed safely**: all but those that reach
a heading. -/
theorem osOptParse_safe_iff (args : List CString) :
    (osOptParse options args).Safe options ↔ ¬ Reaches options args :=
  parseFrom_safe_iff options_wellTyped args 1 ⟨fun st h => (by cases h), fun opt h => (by cases h)⟩ rfl

/-- The heading of the first group as an option. -/
def generalArg : CString := ⟨bytesOf "--General:", by decide +kernel⟩

/-- The letter of every heading. -/
def letterArg : CString := ⟨[dash, 0x68, 0x01], by decide⟩

/-- A heading is stored to. -/
theorem heading_nullStore :
    osOptParse options [generalArg] = .nullStore ∧ osOptParse options [letterArg] = .nullStore ∧
      ¬ (osOptParse options [generalArg]).Safe options := by
  have hlong : osOptParse options [generalArg] = .nullStore := by decide +kernel
  have hshort : osOptParse options [letterArg] = .nullStore := by decide +kernel
  refine ⟨hlong, hshort, ?_⟩
  rw [hlong]
  exact id

end UsbSniffer.Extcap
