import Mathlib.Data.List.TakeWhile
import UsbSniffer.Extcap
import UsbSniffer.LiveSession
import UsbSniffer.Gen1.Usb

/-!
# The program as Wireshark sees it

`parse_command_line` and `handle_extcap_request` of `extcap.c`, and the
order in which `main` looks at the options. Wireshark asks for the
interfaces, then for the link types and the settings of one of them, and
puts the settings the user chose on the command line of the capture.

What is printed and what is parsed stand in different functions of the
source. `wireshark_dialogue` says that they fit: whatever is offered is
accepted, in every order, and means what it says.
-/

namespace UsbSniffer.Extcap

/-! ## `parse_command_line` -/

/-- `Options`: the `bool` fields and the `char *` fields, `NULL` being
`none`. -/
structure Options where
  flag : Field → Bool
  text : Field → Option (List UInt8)

/-- `g_opt` when the program starts. -/
def Options.initial : Options := ⟨fun _ => false, fun _ => none⟩

/-- `*opt->value = …` -/
def Options.store (o : Options) (st : Store) : Options :=
  match st.stored with
  | .flag => { o with flag := Function.update o.flag st.target true }
  | .string text => { o with text := Function.update o.text st.target (some text) }

/-- How the program ends before it does anything. -/
inductive Ending where
  | help
  | error (format : String) (shown : List UInt8)
  | nullStore
deriving Repr, DecidableEq

/-- `get_capture_speed`. -/
def getCaptureSpeed (speed : Option (List UInt8)) : Except Ending CaptureSpeed :=
  match speed with
  | none => .ok .reset
  | some s =>
      if s = bytesOf "ls" then .ok .ls
      else if s = bytesOf "fs" then .ok .fs
      else if s = bytesOf "hs" then .ok .hs
      else if s = bytesOf "auto" then .ok .reset
      else .error (.error "unrecognized capture speed setting: '%s'" s)

/-- `get_capture_trigger`. -/
def getCaptureTrigger (trigger : Option (List UInt8)) : Except Ending CaptureTrigger :=
  match trigger with
  | none => .ok .disabled
  | some s =>
      if s = bytesOf "disabled" then .ok .disabled
      else if s = bytesOf "low" then .ok .low
      else if s = bytesOf "high" then .ok .high
      else if s = bytesOf "falling" then .ok .falling
      else if s = bytesOf "rising" then .ok .rising
      else .error (.error "unrecognized capture trigger setting: '%s'" s)

/-- `isspace` and `isdigit` in the C locale. -/
def isSpace (b : UInt8) : Bool := b == 0x20 || (0x09 ≤ b && b ≤ 0x0D)

def isDigit (b : UInt8) : Bool := 0x30 ≤ b && b ≤ 0x39

/-- The digits at the front, as a number. -/
def digitsValue (text : List UInt8) : Nat :=
  (text.takeWhile isDigit).foldl (fun v b => 10 * v + (b.toNat - 0x30)) 0

/-- `strtoll(text, NULL, 10)`. -/
def strtoll (text : List UInt8) : Int :=
  let t := text.dropWhile isSpace
  let v : Int :=
    match t.head? with
    | some 0x2D => -(digitsValue (t.drop 1) : Int)
    | some 0x2B => digitsValue (t.drop 1)
    | _ => digitsValue t
  max (-2 ^ 63) (min (2 ^ 63 - 1) v)

/-- `g_opt.limit ? strtoll(g_opt.limit, NULL, 10) : -1` -/
def getCaptureLimit (limit : Option (List UInt8)) : Int :=
  match limit with
  | some s => strtoll s
  | none => -1

/-- `g_opt` behind `parse_command_line`. -/
structure Parsed where
  options : Options
  captureSpeed : CaptureSpeed
  captureTrigger : CaptureTrigger
  captureLimit : Int

/-- A query of the extcap protocol, which may carry the name of a tool
behind it. -/
def Options.query (o : Options) : Bool :=
  o.flag .extcapVersion || o.flag .extcapInterfaces || o.flag .extcapDlts ||
    o.flag .extcapConfig || (o.text .extcapInterface).isSome

/-- `parse_command_line`; `args` are the arguments behind the program
name. -/
def parseCommandLine (args : List CString) : Except Ending Parsed :=
  match osOptParse Extcap.options args with
  | .error format shown => .error (.error format shown)
  | .nullStore => .error .nullStore
  | .returned last stores =>
      let o := stores.foldl Options.store Options.initial
      if o.flag .help then .error .help
      else if last ≠ args.length + 1 ∧ o.query = false then
        .error (.error "malformed command line, use '-h' for more information" [])
      else do
        let speed ← getCaptureSpeed (o.text .speed)
        let trigger ← getCaptureTrigger (o.text .trigger)
        pure ⟨o, speed, trigger, getCaptureLimit (o.text .limit)⟩

/-! ## `handle_extcap_request` -/

/-- `INTERFACE_NAME`, `VENDOR_NAME`, `EXTCAP_VERSION` and `EXTCAP_URL`. -/
def interfaceName : String := "usb_sniffer"
def vendorName : String := "Vllogic"
def extcapVersion : String := "2.0"
def extcapUrl : String := "https://github.com/vllogic/usb_sniffer.extcap"

/-- A sentence of the extcap protocol: a word, and its fields, each in
braces. -/
def sentence (word : String) (fields : List (String × String)) : List UInt8 :=
  bytesOf word ++ 0x20 :: fields.flatMap fun f =>
    0x7B :: (bytesOf f.1 ++ equals :: (bytesOf f.2 ++ [0x7D]))

def versionLine : List UInt8 :=
  sentence "extcap" [("version", extcapVersion), ("help", extcapUrl), ("display", vendorName)]

def interfaceLine : List UInt8 :=
  sentence "interface" [("value", interfaceName), ("display", vendorName)]

def dltLine (number : Nat) (name display : String) : List UInt8 :=
  sentence "dlt" [("number", toString number), ("name", name), ("display", display)]

def dltLines : List (List UInt8) :=
  [dltLine 288 "USB_2_0" "USB 2.0",
    dltLine 293 "USB_2_0_LOW_SPEED" "USB 2.0 Low Speed",
    dltLine 294 "USB_2_0_FULL_SPEED" "USB 2.0 Full Speed",
    dltLine 295 "USB_2_0_HIGH_SPEED" "USB 2.0 High Speed"]

def argLine (number call display tooltip kind : String) (more : List (String × String)) :
    List UInt8 :=
  sentence "arg" ([("number", number), ("call", call), ("display", display), ("tooltip", tooltip),
    ("type", kind)] ++ more)

def valueLine (arg value display default : String) : List UInt8 :=
  sentence "value" [("arg", arg), ("value", value), ("display", display), ("default", default)]

def configLines : List (List UInt8) :=
  [argLine "0" "--speed" "Capture Speed" "USB capture speed" "selector" [],
    valueLine "0" "auto" "Auto-Detect" "true",
    valueLine "0" "ls" "Low-Speed" "false",
    valueLine "0" "fs" "Full-Speed" "false",
    valueLine "0" "hs" "High-Speed" "false",
    argLine "1" "--fold" "Fold empty frames" "Fold frames that have no data or errors"
      "boolflag" [],
    argLine "2" "--exclude" "Exclude Line State" "Exclude Line State to reduce CPU usage"
      "boolflag" [],
    argLine "3" "--trigger" "Capture Trigger" "Condition used to start the capture" "selector" [],
    valueLine "3" "disabled" "Disabled" "true",
    valueLine "3" "low" "Low" "false",
    valueLine "3" "high" "High" "false",
    valueLine "3" "falling" "Falling" "false",
    valueLine "3" "rising" "Rising" "false",
    argLine "4" "--limit" "Capture Limit" "Limit the number of captured packets (0 for unlimited)"
      "integer" [("range", "0,10000000"), ("default", "0")]]

/-- What is printed, what is logged, and the value returned. -/
structure Reply where
  stdout : List (List UInt8)
  log : List String
  answered : Bool
deriving Repr, DecidableEq

/-- `g_opt.extcap_interface && strcmp(g_opt.extcap_interface, INTERFACE_NAME)` -/
def Options.foreignInterface (o : Options) : Bool :=
  match o.text .extcapInterface with
  | some name => name != bytesOf interfaceName
  | none => false

/-- `handle_extcap_request`. -/
def handleExtcapRequest (o : Options) : Reply :=
  -- the version is a preamble: the interfaces may follow it
  let version := if o.flag .extcapVersion then [versionLine] else []
  if o.flag .extcapInterfaces then ⟨version ++ [interfaceLine], [], true⟩
  else if o.flag .extcapVersion then ⟨version, [], true⟩
  else if o.foreignInterface then ⟨[], ["invalid interface, expected usb_sniffer"], true⟩
  else if o.flag .extcapDlts then ⟨dltLines, [], true⟩
  else if o.flag .extcapConfig then ⟨configLines, [], true⟩
  else ⟨[], [], false⟩

/-! ## `main` -/

/-- What `main` goes on to do. -/
inductive Action where
  | ended (how : Ending)
  | answered (stdout : List (List UInt8)) (log : List String)
  | replay (file out : List UInt8) (opts : PacketOpts)
  | capture (fifo : List UInt8) (opts : PacketOpts)
  | test
  | mcuSram (name : List UInt8)
  | mcuEeprom (name : List UInt8)
  | fpgaSram (name : List UInt8)
  | fpgaFlash (name : List UInt8)
  | fpgaErase
  | nothing

/-- `popts`. -/
def Parsed.packetOpts (p : Parsed) : PacketOpts where
  foldEmpty := p.options.flag .foldEmpty
  excludeLineState := p.options.flag .excludeLineState
  captureSpeed := p.captureSpeed
  captureTrigger := p.captureTrigger
  captureLimit := p.captureLimit

/-- `if (g_opt.extcap_capture && g_opt.extcap_fifo)` -/
def Options.fifo (o : Options) : Option (List UInt8) :=
  if o.flag .extcapCapture then o.text .extcapFifo else none

/-- The maintenance tools, in the order of `main`. -/
def Options.maintenance (o : Options) : Action :=
  if o.flag .test then .test
  else match o.text .mcuSram with
    | some name => .mcuSram name
    | none => match o.text .mcuEeprom with
      | some name => .mcuEeprom name
      | none => match o.text .fpgaSram with
        | some name => .fpgaSram name
        | none => match o.text .fpgaFlash with
          | some name => .fpgaFlash name
          | none => if o.flag .fpgaErase then .fpgaErase else .nothing

/-- `main` behind `parse_command_line`. -/
def Parsed.action (p : Parsed) : Action :=
  let r := handleExtcapRequest p.options
  if r.answered then .answered r.stdout r.log
  else match p.options.text .replay with
    | some file =>
        .replay file ((p.options.text .extcapFifo).getD (bytesOf "out.pcapng")) p.packetOpts
    | none => match p.options.fifo with
      -- the capture goes before the maintenance tools
      | some fifo => .capture fifo p.packetOpts
      | none => p.options.maintenance

/-- `main`. -/
def mainAction (args : List CString) : Action :=
  match parseCommandLine args with
  | .error how => .ended how
  | .ok p => p.action

/-! ## Command lines of whole options -/

/-- The C string in an array of bytes. -/
def CString.ofBytes (bytes : List UInt8) : CString where
  bytes := bytes.takeWhile (· ≠ 0)
  no_nul h := by simpa using List.mem_takeWhile_imp h

theorem takeWhile_not_mem {b : UInt8} {text : List UInt8} (h : b ∉ text) :
    text.takeWhile (· ≠ b) = text := by
  refine List.takeWhile_eq_self_iff.mpr fun c hc => ?_
  simp only [decide_eq_true_eq]
  rintro rfl
  exact h hc

/-- An option on the command line, by its name: `--name`, `--name value`
or `--name=value`. -/
inductive Word where
  | plain (name : CString)
  | pair (name value : CString)
  | inline (name value : CString)

/-- `--name`. -/
def longArg (name : CString) : CString where
  bytes := dash :: dash :: name.bytes
  no_nul := by simp [name.no_nul, dash]

/-- `--name=value`. -/
def inlineArg (name value : CString) : CString where
  bytes := dash :: dash :: (name.bytes ++ equals :: value.bytes)
  no_nul := by simp [name.no_nul, value.no_nul, dash, equals]

def Word.args : Word → List CString
  | .plain name => [longArg name]
  | .pair name value => [longArg name, value]
  | .inline name value => [inlineArg name value]

/-- The word names a row of the table, has an argument if the row has
one, and `st` is what it stores. A flag ignores a value behind its
`=`. -/
def Word.Stores (options : List OsOption) (st : Store) : Word → Prop
  | .plain name => equals ∉ name.bytes ∧ ∃ opt, findLongOption options name.bytes = some opt ∧
      opt.argName = none ∧ opt.value = some st.target ∧ st.stored = .flag
  | .pair name value => equals ∉ name.bytes ∧ ¬ value.dashed ∧
      ∃ opt, findLongOption options name.bytes = some opt ∧ opt.argName.isSome = true ∧
        opt.value = some st.target ∧ st.stored = .string value.bytes
  | .inline name value => equals ∉ name.bytes ∧
      ∃ opt, findLongOption options name.bytes = some opt ∧ opt.value = some st.target ∧
        st.stored = if opt.argName.isSome then .string value.bytes else .flag

section
variable {options : List OsOption}

theorem takeWhile_name {name : List UInt8} (h : equals ∉ name) (rest : List UInt8) :
    (name ++ equals :: rest).takeWhile (· ≠ equals) = name ∧
      (name ++ equals :: rest).dropWhile (· ≠ equals) = equals :: rest := by
  induction name with
  | nil => simp
  | cons b name ih =>
      simp only [List.mem_cons, not_or] at h
      obtain ⟨hb, hname⟩ := h
      have hb' : b ≠ equals := fun h => hb h.symm
      simpa [hb'] using ih hname

@[simp] theorem dash_ne_equals : dash ≠ equals := by decide

theorem optionName_longArg {name : CString} (h : equals ∉ name.bytes) :
    optionName (longArg name).bytes = name.bytes := by
  simp only [optionName, longArg]
  rw [List.takeWhile_cons_of_pos (by decide), List.takeWhile_cons_of_pos (by decide),
    takeWhile_not_mem h]
  rfl

theorem optionName_inlineArg {name : CString} (h : equals ∉ name.bytes) (value : CString) :
    optionName (inlineArg name value).bytes = name.bytes := by
  simp only [optionName, inlineArg]
  rw [List.takeWhile_cons_of_pos (by decide), List.takeWhile_cons_of_pos (by decide),
    (takeWhile_name h _).1]
  rfl

theorem inlineValue_longArg {name : CString} (h : equals ∉ name.bytes) :
    inlineValue (longArg name).bytes = none := by
  simp [inlineValue, longArg, h, Ne.symm dash_ne_equals]

theorem inlineValue_inlineArg {name : CString} (h : equals ∉ name.bytes) (value : CString) :
    inlineValue (inlineArg name value).bytes = some value.bytes := by
  have hmem : equals ∈ (inlineArg name value).bytes := by simp [inlineArg]
  rw [inlineValue, if_pos hmem]
  simp only [inlineArg]
  rw [List.dropWhile_cons_of_pos (by decide), List.dropWhile_cons_of_pos (by decide),
    (takeWhile_name h _).2]
  rfl

/-- `--text` goes to the branch for long names. -/
theorem parseFrom_long {arg : CString} {text : List UInt8} (harg : arg.bytes = dash :: dash :: text)
    (rest : List CString) (i : Nat) {s : State} (hs : s.argOpt = none) :
    parseFrom options (arg :: rest) i s =
      goOn options rest i (longOption options arg.bytes s) := by
  have hdash : arg.dashed := by simp [CString.dashed, harg]
  rw [parseFrom_option hdash rest i hs]
  simp [optionArg, harg]

/-- **One option.** It is taken up whole, and stores once. -/
theorem parseFrom_word {w : Word} {st : Store} (h : w.Stores options st) (rest : List CString)
    (i : Nat) (stores : List Store) (short : Bool) :
    ∃ short', parseFrom options (w.args ++ rest) i ⟨stores, none, short⟩ =
      parseFrom options rest (i + w.args.length) ⟨stores ++ [st], none, short'⟩ := by
  obtain ⟨target, stored⟩ := st
  let s : State := ⟨stores, none, short⟩
  cases w with
  | plain name =>
      obtain ⟨hname, opt, hfind, hflag, hvalue, rfl⟩ := h
      have hlong : longOption options (longArg name).bytes s =
          .next ⟨stores ++ [⟨target, .flag⟩], none, false⟩ := by
        simp [s, longOption, optionName_longArg hname, inlineValue_longArg hname, hfind, hflag,
          storeTo, hvalue]
      have hstep : parseFrom options (longArg name :: rest) i s = goOn options rest i _ :=
        parseFrom_long rfl rest i rfl
      exact ⟨false, hstep.trans (by rw [hlong]; rfl)⟩
  | pair name value =>
      obtain ⟨hname, hdash, opt, hfind, harg, hvalue, rfl⟩ := h
      have hlong : longOption options (longArg name).bytes s =
          .next ⟨stores, some opt, false⟩ := by
        simp [s, longOption, optionName_longArg hname, inlineValue_longArg hname, hfind, harg]
      have hstep : parseFrom options (longArg name :: value :: rest) i s =
          goOn options (value :: rest) i _ := parseFrom_long rfl (value :: rest) i rfl
      refine ⟨false, hstep.trans ?_⟩
      rw [hlong]
      -- the turn of the value
      simp only [goOn, parseFrom, if_neg hdash, storeTo, hvalue]
      rfl
  | inline name value =>
      obtain ⟨hname, opt, hfind, hvalue, rfl⟩ := h
      have hlong : longOption options (inlineArg name value).bytes s =
          .next ⟨stores ++ [⟨target, if opt.argName.isSome then .string value.bytes else .flag⟩],
            none, false⟩ := by
        simp only [s, longOption, optionName_inlineArg hname, inlineValue_inlineArg hname, hfind,
          storeTo, hvalue]
        split <;> rfl
      have hstep : parseFrom options (inlineArg name value :: rest) i s = goOn options rest i _ :=
        parseFrom_long rfl rest i rfl
      exact ⟨false, hstep.trans (by rw [hlong]; rfl)⟩

/-- **Whole options in any order.** The parse comes to the end of the
line and has stored what each of them stores. -/
theorem parseFrom_words {ws : List Word} {sts : List Store}
    (h : List.Forall₂ (fun w st => w.Stores options st) ws sts) (i : Nat) (stores : List Store)
    (short : Bool) :
    parseFrom options (ws.flatMap Word.args) i ⟨stores, none, short⟩ =
      .returned (i + (ws.flatMap Word.args).length) (stores ++ sts) := by
  induction h generalizing i stores short with
  | nil => simp [parseFrom, finish]
  | @cons w st ws sts hw _ ih =>
      obtain ⟨short', hstep⟩ := parseFrom_word hw (ws.flatMap Word.args) i stores short
      rw [List.flatMap_cons, hstep, ih]
      simp [Nat.add_assoc]

end

/-! ## What Wireshark reads -/

/-- A sentence that was read. -/
structure Sentence where
  word : List UInt8
  fields : List (List UInt8 × List UInt8)
deriving Repr, DecidableEq

def Sentence.get (s : Sentence) (key : String) : Option (List UInt8) := s.fields.lookup (bytesOf key)

/-- Outside of braces, in a key, or in a value. -/
inductive Reading where
  | outside
  | key (k : List UInt8)
  | value (k v : List UInt8)

def readFields : List UInt8 → Reading → Option (List (List UInt8 × List UInt8))
  | [], .outside => some []
  | [], _ => none
  | b :: bs, .outside => if b = 0x7B then readFields bs (.key []) else none
  | b :: bs, .key k =>
      if b = equals then readFields bs (.value k []) else readFields bs (.key (k ++ [b]))
  | b :: bs, .value k v =>
      if b = 0x7D then (readFields bs .outside).map ((k, v) :: ·)
      else readFields bs (.value k (v ++ [b]))

def readSentence (line : List UInt8) : Option Sentence :=
  match line.dropWhile (· ≠ 0x20) with
  | [] => none
  | _ :: rest => (readFields rest .outside).map fun fields => ⟨line.takeWhile (· ≠ 0x20), fields⟩

/-- The sentences on standard output, if all of it is sentences. -/
def readSentences (stdout : List (List UInt8)) : Option (List Sentence) := stdout.mapM readSentence

/-- The arguments of a type, with their numbers. -/
def argsOf (kind : String) (ss : List Sentence) : List (List UInt8 × Sentence) :=
  ss.filterMap fun a =>
    if a.word = bytesOf "arg" ∧ a.get "type" = some (bytesOf kind) then
      (a.get "call").map fun call => (call, a)
    else none

/-- The selectors, each with its values. -/
def selectors (ss : List Sentence) : List (List UInt8 × List UInt8) :=
  (argsOf "selector" ss).flatMap fun (call, a) =>
    ss.filterMap fun v =>
      if v.word = bytesOf "value" ∧ v.get "arg" = a.get "number" then
        (v.get "value").map fun value => (call, value)
      else none

def boolflags (ss : List Sentence) : List (List UInt8) := (argsOf "boolflag" ss).map (·.1)

/-- The numbers, each with its range. -/
def ranges (ss : List Sentence) : List (List UInt8 × Nat × Nat) :=
  (argsOf "integer" ss).filterMap fun (call, a) =>
    (a.get "range").map fun range =>
      (call, digitsValue range, digitsValue ((range.dropWhile (· ≠ 0x2C)).drop 1))

/-- What the user sets in the dialog. -/
inductive Setting where
  | select (call value : List UInt8)
  | set (call : List UInt8)
  | enter (call : List UInt8) (n : Nat)

/-- The dialog has it. -/
def Setting.Offered (ss : List Sentence) : Setting → Prop
  | .select call value => (call, value) ∈ selectors ss
  | .set call => call ∈ boolflags ss
  | .enter call n => ∃ r ∈ ranges ss, r.1 = call ∧ r.2.1 ≤ n ∧ n ≤ r.2.2

/-- A number in decimal. -/
def decimal (n : Nat) : List UInt8 := (Nat.toDigits 10 n).map fun c => c.toNat.toUInt8

def Setting.args : Setting → List CString
  | .select call value => [.ofBytes call, .ofBytes value]
  | .set call => [.ofBytes call]
  | .enter call n => [.ofBytes call, .ofBytes (decimal n)]

/-- A piece of the command line of a capture. -/
inductive Piece where
  | capture
  | interface (name : CString)
  | fifo (path : CString)
  | setting (s : Setting)

def Piece.args : Piece → List CString
  | .capture => [.ofBytes (bytesOf "--capture")]
  | .interface name => [.ofBytes (bytesOf "--extcap-interface"), name]
  | .fifo path => [.ofBytes (bytesOf "--fifo"), path]
  | .setting s => s.args

/-- The interface is one that was listed, the settings are offered, and
the path is not taken for an option. -/
def Piece.Offered (names : List (List UInt8)) (ss : List Sentence) : Piece → Prop
  | .capture => True
  | .interface name => name.bytes ∈ names
  | .fifo path => ¬ path.dashed
  | .setting s => s.Offered ss

/-! ### What it means -/

def speedNames : List (List UInt8 × CaptureSpeed) :=
  [(bytesOf "auto", .reset), (bytesOf "ls", .ls), (bytesOf "fs", .fs), (bytesOf "hs", .hs)]

def triggerNames : List (List UInt8 × CaptureTrigger) :=
  [(bytesOf "disabled", .disabled), (bytesOf "low", .low), (bytesOf "high", .high),
    (bytesOf "falling", .falling), (bytesOf "rising", .rising)]

/-- A setting over the options so far; a later one wins. -/
def Setting.apply : Setting → PacketOpts → PacketOpts
  | .select call value, opts =>
      if call = bytesOf "--speed" then
        { opts with captureSpeed := (speedNames.lookup value).getD opts.captureSpeed }
      else { opts with captureTrigger := (triggerNames.lookup value).getD opts.captureTrigger }
  | .set call, opts =>
      if call = bytesOf "--fold" then { opts with foldEmpty := true }
      else { opts with excludeLineState := true }
  | .enter _ n, opts => { opts with captureLimit := n }

/-- What was asked for. -/
structure Asked where
  opts : PacketOpts
  capture : Bool
  fifo : Option (List UInt8)

def Asked.nothing : Asked := ⟨⟨false, false, .reset, .disabled, -1⟩, false, none⟩

def Asked.take (a : Asked) : Piece → Asked
  | .capture => { a with capture := true }
  | .interface _ => a
  | .fifo path => { a with fifo := some path.bytes }
  | .setting s => { a with opts := s.apply a.opts }

/-! ### Numbers -/

/-- A digit as a byte. -/
theorem digit_byte {n : Nat} {c : Char} (h : c ∈ Nat.toDigits 10 n) :
    c.toNat.toUInt8.toNat = c.toNat ∧ 0x30 ≤ c.toNat ∧ c.toNat ≤ 0x39 := by
  have hdigit := Nat.isDigit_of_mem_toDigits (by decide) (by decide) h
  simp only [Char.isDigit, Bool.and_eq_true, decide_eq_true_eq] at hdigit
  obtain ⟨hlo, hhi⟩ := hdigit
  have hlo' : 48 ≤ c.toNat := hlo
  have hhi' : c.toNat ≤ 57 := hhi
  refine ⟨?_, hlo', hhi'⟩
  simp only [Nat.toUInt8, UInt8.toNat_ofNat']
  omega

theorem isDigit_decimal {n : Nat} {b : UInt8} (h : b ∈ decimal n) :
    isDigit b = true ∧ 0x30 ≤ b.toNat ∧ b.toNat ≤ 0x39 := by
  simp only [decimal, List.mem_map] at h
  obtain ⟨c, hc, rfl⟩ := h
  obtain ⟨hbyte, hlo, hhi⟩ := digit_byte hc
  rw [hbyte]
  refine ⟨?_, hlo, hhi⟩
  simp only [isDigit, Bool.and_eq_true, decide_eq_true_eq, UInt8.le_iff_toNat_le, hbyte]
  exact ⟨hlo, hhi⟩

theorem digitsValue_decimal (n : Nat) : digitsValue (decimal n) = n := by
  have hall : (decimal n).takeWhile isDigit = decimal n :=
    List.takeWhile_eq_self_iff.mpr fun b hb => (isDigit_decimal hb).1
  have hfold : ∀ cs : List Char, (∀ c ∈ cs, c ∈ Nat.toDigits 10 n) → ∀ v,
      (cs.map fun c => c.toNat.toUInt8).foldl (fun v b => 10 * v + (b.toNat - 0x30)) v =
        Nat.ofDigitChars 10 cs v := by
    intro cs
    induction cs with
    | nil => intro _ v; rfl
    | cons c cs ih =>
        intro hcs v
        simp only [List.map_cons, List.foldl_cons, Nat.ofDigitChars_cons]
        rw [(digit_byte (hcs c List.mem_cons_self)).1]
        exact ih (fun d hd => hcs d (List.mem_cons_of_mem _ hd)) _
  rw [digitsValue, hall, decimal, hfold _ (fun _ h => h), Nat.ofDigitChars_ten_toDigits]

/-- `strtoll` reads a decimal number back. -/
theorem strtoll_decimal {n : Nat} (hn : n < 2 ^ 63) : strtoll (decimal n) = n := by
  have hne : decimal n ≠ [] := by
    simp [decimal, Nat.toDigits_ne_nil]
  obtain ⟨b, rest, hb⟩ := List.exists_cons_of_ne_nil hne
  obtain ⟨-, hlo, hhi⟩ := isDigit_decimal (hb ▸ List.mem_cons_self : b ∈ decimal n)
  have hspace : isSpace b = false := by
    simp only [isSpace, Bool.or_eq_false_iff, beq_eq_false_iff_ne, Bool.and_eq_false_iff,
      decide_eq_false_iff_not, UInt8.le_iff_toNat_le]
    refine ⟨?_, Or.inr ?_⟩
    · rintro rfl
      exact absurd hlo (by decide)
    · simpa using by omega
  have hdrop : (decimal n).dropWhile isSpace = decimal n := by
    rw [hb, List.dropWhile_cons_of_neg (by simp [hspace])]
  have hminus : b ≠ 0x2D := by
    rintro rfl
    exact absurd hlo (by decide)
  have hplus : b ≠ 0x2B := by
    rintro rfl
    exact absurd hlo (by decide)
  have hhead : (decimal n).head? = some b := by simp [hb]
  simp only [strtoll, hdrop, hhead]
  split
  · simp_all
  · simp_all
  · rw [digitsValue_decimal]
    omega

/-! ### The options of a capture -/

/-- The options read as what was asked for, and ask for nothing else. -/
structure Reads (o : Options) (a : Asked) : Prop where
  speed : getCaptureSpeed (o.text .speed) = .ok a.opts.captureSpeed
  trigger : getCaptureTrigger (o.text .trigger) = .ok a.opts.captureTrigger
  limit : getCaptureLimit (o.text .limit) = a.opts.captureLimit
  fold : o.flag .foldEmpty = a.opts.foldEmpty
  exclude : o.flag .excludeLineState = a.opts.excludeLineState
  capture : o.flag .extcapCapture = a.capture
  fifo : o.text .extcapFifo = a.fifo
  interface : o.foreignInterface = false
  quiet : ∀ f ∈ [Field.help, .extcapVersion, .extcapInterfaces, .extcapDlts, .extcapConfig],
    o.flag f = false
  live : o.text .replay = none

theorem reads_initial : Reads Options.initial Asked.nothing := by
  constructor <;> simp [Options.initial, Asked.nothing, getCaptureSpeed, getCaptureTrigger,
    getCaptureLimit, Options.foreignInterface]

/-- A piece, the option it is, and what that stores. -/
structure Piece.Is (p : Piece) (w : Word) (st : Store) : Prop where
  args : w.args = p.args
  stores : w.Stores Extcap.options st
  reads : ∀ o a, Reads o a → Reads (o.store st) (a.take p)

/-- The name of an option. -/
def nameOf (name : String) : CString := .ofBytes (bytesOf name)

/-- The rows that the dialogue uses: the name, how it is written, and the
row. -/
def dialogueRows : List (String × String × OsOption) :=
  [("capture", "--capture", flagRow 0x63 "capture" .extcapCapture),
    ("fold", "--fold", flagRow 0x6C "fold" .foldEmpty),
    ("exclude", "--exclude", flagRow 0x65 "exclude" .excludeLineState),
    ("extcap-interface", "--extcap-interface", argRow 0 "extcap-interface" "name" .extcapInterface),
    ("fifo", "--fifo", argRow 0x66 "fifo" "name" .extcapFifo),
    ("speed", "--speed", argRow 0x73 "speed" "speed" .speed),
    ("trigger", "--trigger", argRow 0x74 "trigger" "type" .trigger),
    ("limit", "--limit", argRow 0x6E "limit" "number" .limit),
    ("extcap-interfaces", "--extcap-interfaces", flagRow 0 "extcap-interfaces" .extcapInterfaces),
    ("extcap-version", "--extcap-version", flagRow 0 "extcap-version" .extcapVersion),
    ("extcap-dlts", "--extcap-dlts", flagRow 0 "extcap-dlts" .extcapDlts),
    ("extcap-config", "--extcap-config", flagRow 0 "extcap-config" .extcapConfig)]

/-- All of them are in the table, under their names. -/
theorem dialogueRows_found : ∀ r ∈ dialogueRows,
    longArg (nameOf r.1) = .ofBytes (bytesOf r.2.1) ∧ equals ∉ (nameOf r.1).bytes ∧
      findLongOption Extcap.options (nameOf r.1).bytes = some r.2.2 := by
  decide +kernel

/-- A flag of the dialogue, given plainly. -/
theorem plain_stores {name written letter field}
    (h : (name, written, flagRow letter name field) ∈ dialogueRows) :
    (Word.plain (nameOf name)).args = [.ofBytes (bytesOf written)] ∧
      (Word.plain (nameOf name)).Stores Extcap.options ⟨field, .flag⟩ := by
  obtain ⟨harg, hequals, hfound⟩ := dialogueRows_found _ h
  exact ⟨congrArg (List.cons · []) harg, hequals, _, hfound, rfl, rfl, rfl⟩

/-- An option of the dialogue with its value behind it. -/
theorem pair_stores {name written letter arg field} {value : CString} {text : List UInt8}
    (h : (name, written, argRow letter name arg field) ∈ dialogueRows)
    (hdash : ¬ value.dashed) (htext : value.bytes = text) :
    (Word.pair (nameOf name) value).args = [.ofBytes (bytesOf written), value] ∧
      (Word.pair (nameOf name) value).Stores Extcap.options ⟨field, .string text⟩ := by
  obtain ⟨harg, hequals, hfound⟩ := dialogueRows_found _ h
  refine ⟨congrArg (List.cons · [value]) harg, hequals, hdash, _, hfound, rfl, rfl, ?_⟩
  rw [htext]

/-- Two of the settings are told from the others by their calls. -/
theorem calls_ne : bytesOf "--trigger" ≠ bytesOf "--speed" ∧
    bytesOf "--exclude" ≠ bytesOf "--fold" := by
  decide +kernel

theorem interfaceName_plain : (bytesOf interfaceName).head? ≠ some dash := by
  decide +kernel

theorem is_capture : Piece.capture.Is (.plain (nameOf "capture")) ⟨.extcapCapture, .flag⟩ := by
  have hrow : ("capture", "--capture", flagRow 0x63 "capture" .extcapCapture) ∈ dialogueRows := by
    simp [dialogueRows]
  obtain ⟨hargs, hstores⟩ := plain_stores hrow
  refine ⟨hargs, hstores, fun o a hr => ?_⟩
  obtain ⟨speed, trigger, limit, fold, exclude, -, fifo, interface, quiet, live⟩ := hr
  constructor
  all_goals simp_all [Options.store, Asked.take, Options.foreignInterface]

theorem is_interface {name : CString} (h : name.bytes = bytesOf interfaceName) :
    (Piece.interface name).Is (.pair (nameOf "extcap-interface") name)
      ⟨.extcapInterface, .string name.bytes⟩ := by
  have hdash : ¬ name.dashed := by
    rw [CString.dashed, h]
    exact interfaceName_plain
  have hrow : ("extcap-interface", "--extcap-interface",
      argRow 0 "extcap-interface" "name" .extcapInterface) ∈ dialogueRows := by
    simp [dialogueRows]
  obtain ⟨hargs, hstores⟩ := pair_stores hrow hdash rfl
  refine ⟨hargs, hstores, fun o a hr => ?_⟩
  obtain ⟨speed, trigger, limit, fold, exclude, capture, fifo, -, quiet, live⟩ := hr
  constructor
  all_goals simp_all [Options.store, Asked.take, Options.foreignInterface]

theorem is_fifo {path : CString} (h : ¬ path.dashed) :
    (Piece.fifo path).Is (.pair (nameOf "fifo") path) ⟨.extcapFifo, .string path.bytes⟩ := by
  have hrow : ("fifo", "--fifo", argRow 0x66 "fifo" "name" .extcapFifo) ∈ dialogueRows := by
    simp [dialogueRows]
  obtain ⟨hargs, hstores⟩ := pair_stores hrow h rfl
  refine ⟨hargs, hstores, fun o a hr => ?_⟩
  obtain ⟨speed, trigger, limit, fold, exclude, capture, -, interface, quiet, live⟩ := hr
  constructor
  all_goals simp_all [Options.store, Asked.take, Options.foreignInterface]

theorem speedNames_read : ∀ e ∈ speedNames, (CString.ofBytes e.1).bytes = e.1 ∧
    ¬ (CString.ofBytes e.1).dashed ∧ getCaptureSpeed (some e.1) = .ok e.2 ∧
      speedNames.lookup e.1 = some e.2 := by
  decide +kernel

theorem triggerNames_read : ∀ e ∈ triggerNames, (CString.ofBytes e.1).bytes = e.1 ∧
    ¬ (CString.ofBytes e.1).dashed ∧ getCaptureTrigger (some e.1) = .ok e.2 ∧
      triggerNames.lookup e.1 = some e.2 := by
  decide +kernel

theorem is_speed {value : List UInt8} {speed : CaptureSpeed} (h : (value, speed) ∈ speedNames) :
    (Piece.setting (.select (bytesOf "--speed") value)).Is
      (.pair (nameOf "speed") (.ofBytes value)) ⟨.speed, .string value⟩ := by
  obtain ⟨hbytes, hdash, hread, hlookup⟩ := speedNames_read _ h
  have hrow : ("speed", "--speed", argRow 0x73 "speed" "speed" .speed) ∈ dialogueRows := by
    simp [dialogueRows]
  obtain ⟨hargs, hstores⟩ := pair_stores hrow hdash hbytes
  refine ⟨hargs, hstores, fun o a hr => ?_⟩
  obtain ⟨-, trigger, limit, fold, exclude, capture, fifo, interface, quiet, live⟩ := hr
  constructor
  all_goals simp_all [Options.store, Asked.take, Options.foreignInterface, Setting.apply]

theorem is_trigger {value : List UInt8} {trigger : CaptureTrigger}
    (h : (value, trigger) ∈ triggerNames) :
    (Piece.setting (.select (bytesOf "--trigger") value)).Is
      (.pair (nameOf "trigger") (.ofBytes value)) ⟨.trigger, .string value⟩ := by
  obtain ⟨hbytes, hdash, hread, hlookup⟩ := triggerNames_read _ h
  have hcall := calls_ne.1
  have hrow : ("trigger", "--trigger", argRow 0x74 "trigger" "type" .trigger) ∈ dialogueRows := by
    simp [dialogueRows]
  obtain ⟨hargs, hstores⟩ := pair_stores hrow hdash hbytes
  refine ⟨hargs, hstores, fun o a hr => ?_⟩
  obtain ⟨speed, -, limit, fold, exclude, capture, fifo, interface, quiet, live⟩ := hr
  constructor
  all_goals simp_all [Options.store, Asked.take, Options.foreignInterface, Setting.apply]

theorem is_fold : (Piece.setting (.set (bytesOf "--fold"))).Is (.plain (nameOf "fold"))
    ⟨.foldEmpty, .flag⟩ := by
  have hrow : ("fold", "--fold", flagRow 0x6C "fold" .foldEmpty) ∈ dialogueRows := by
    simp [dialogueRows]
  obtain ⟨hargs, hstores⟩ := plain_stores hrow
  refine ⟨hargs, hstores, fun o a hr => ?_⟩
  obtain ⟨speed, trigger, limit, -, exclude, capture, fifo, interface, quiet, live⟩ := hr
  constructor
  all_goals simp_all [Options.store, Asked.take, Options.foreignInterface, Setting.apply]

theorem is_exclude : (Piece.setting (.set (bytesOf "--exclude"))).Is (.plain (nameOf "exclude"))
    ⟨.excludeLineState, .flag⟩ := by
  have hcall := calls_ne.2
  have hrow : ("exclude", "--exclude", flagRow 0x65 "exclude" .excludeLineState) ∈
      dialogueRows := by
    simp [dialogueRows]
  obtain ⟨hargs, hstores⟩ := plain_stores hrow
  refine ⟨hargs, hstores, fun o a hr => ?_⟩
  obtain ⟨speed, trigger, limit, fold, -, capture, fifo, interface, quiet, live⟩ := hr
  constructor
  all_goals simp_all [Options.store, Asked.take, Options.foreignInterface, Setting.apply]

theorem decimal_bytes (n : Nat) :
    (CString.ofBytes (decimal n)).bytes = decimal n ∧ ¬ (CString.ofBytes (decimal n)).dashed := by
  have hbytes : (CString.ofBytes (decimal n)).bytes = decimal n := by
    refine takeWhile_not_mem fun h => ?_
    exact absurd (isDigit_decimal h).2.1 (by decide)
  refine ⟨hbytes, fun h => ?_⟩
  rw [CString.dashed, hbytes] at h
  exact absurd (isDigit_decimal (List.mem_of_head? h)).2.1 (by decide)

theorem is_limit {n : Nat} (hn : n < 2 ^ 63) :
    (Piece.setting (.enter (bytesOf "--limit") n)).Is
      (.pair (nameOf "limit") (.ofBytes (decimal n))) ⟨.limit, .string (decimal n)⟩ := by
  obtain ⟨hbytes, hdash⟩ := decimal_bytes n
  have hrow : ("limit", "--limit", argRow 0x6E "limit" "number" .limit) ∈ dialogueRows := by
    simp [dialogueRows]
  obtain ⟨hargs, hstores⟩ := pair_stores hrow hdash hbytes
  refine ⟨hargs, hstores, fun o a hr => ?_⟩
  have hread := strtoll_decimal hn
  obtain ⟨speed, trigger, -, fold, exclude, capture, fifo, interface, quiet, live⟩ := hr
  constructor
  all_goals
    simp_all [Options.store, Asked.take, Options.foreignInterface, Setting.apply, getCaptureLimit]

/-- The interfaces and the link types that were listed. -/
def interfaces (ss : List Sentence) : List (List UInt8) :=
  (ss.filter (·.word = bytesOf "interface")).filterMap (·.get "value")

def dlts (ss : List Sentence) : List (List UInt8) :=
  (ss.filter (·.word = bytesOf "dlt")).filterMap (·.get "number")

/-- The sentences that `--extcap-interfaces`, `--extcap-dlts` and
`--extcap-config` print. -/
def listed : List Sentence := (readSentences [versionLine, interfaceLine]).getD []

def linkTypes : List Sentence := (readSentences dltLines).getD []

def config : List Sentence := (readSentences configLines).getD []

theorem listed_read : readSentences [versionLine, interfaceLine] = some listed ∧
    interfaces listed = [bytesOf interfaceName] := by
  decide +kernel

theorem linkTypes_read : readSentences dltLines = some linkTypes ∧
    dlts linkTypes = [decimal 288, decimal 293, decimal 294, decimal 295] := by
  decide +kernel

theorem config_read : readSentences configLines = some config ∧
    selectors config = speedNames.map (fun e => (bytesOf "--speed", e.1)) ++
      triggerNames.map (fun e => (bytesOf "--trigger", e.1)) ∧
    boolflags config = [bytesOf "--fold", bytesOf "--exclude"] ∧
    ranges config = [(bytesOf "--limit", 0, 10000000)] := by
  decide +kernel

/-- Whatever is offered is an option. -/
theorem Piece.Offered.is {p : Piece} (h : p.Offered (interfaces listed) config) :
    ∃ w st, p.Is w st := by
  obtain ⟨-, hselectors, hboolflags, hranges⟩ := config_read
  cases p with
  | capture => exact ⟨_, _, is_capture⟩
  | interface name =>
      simp only [Piece.Offered, listed_read.2, List.mem_singleton] at h
      exact ⟨_, _, is_interface h⟩
  | fifo path => exact ⟨_, _, is_fifo h⟩
  | setting s =>
      cases s with
      | select call value =>
          simp only [Piece.Offered, Setting.Offered, hselectors, List.mem_append, List.mem_map,
            Prod.mk.injEq] at h
          rcases h with ⟨⟨value', speed⟩, he, rfl, rfl⟩ | ⟨⟨value', trigger⟩, he, rfl, rfl⟩
          · exact ⟨_, _, is_speed he⟩
          · exact ⟨_, _, is_trigger he⟩
      | set call =>
          simp only [Piece.Offered, Setting.Offered, hboolflags, List.mem_cons, List.not_mem_nil,
            or_false] at h
          rcases h with rfl | rfl
          · exact ⟨_, _, is_fold⟩
          · exact ⟨_, _, is_exclude⟩
      | enter call n =>
          simp only [Piece.Offered, Setting.Offered, hranges, List.mem_singleton] at h
          obtain ⟨r, rfl, rfl, -, hn⟩ := h
          exact ⟨_, _, is_limit (by simp only at hn; omega)⟩

theorem pieces_are {pieces : List Piece}
    (h : ∀ p ∈ pieces, p.Offered (interfaces listed) config) :
    ∃ ws sts, ws.flatMap Word.args = pieces.flatMap Piece.args ∧
      List.Forall₂ (fun w st => w.Stores Extcap.options st) ws sts ∧
      ∀ o a, Reads o a → Reads (sts.foldl Options.store o) (pieces.foldl Asked.take a) := by
  induction pieces with
  | nil => exact ⟨[], [], rfl, .nil, fun _ _ h => h⟩
  | cons p pieces ih =>
      obtain ⟨ws, sts, hargs, hstores, hreads⟩ := ih fun q hq => h q (List.mem_cons_of_mem _ hq)
      obtain ⟨w, st, hp⟩ := (h p List.mem_cons_self).is
      refine ⟨w :: ws, st :: sts, ?_, .cons hp.stores hstores, fun o a ho => ?_⟩
      · rw [List.flatMap_cons, List.flatMap_cons, hp.args, hargs]
      · exact hreads _ _ (hp.reads o a ho)

/-- `parse_command_line` on a line of whole options. -/
theorem parseCommandLine_words {args : List CString} {ws : List Word} {sts : List Store}
    (hargs : ws.flatMap Word.args = args)
    (h : List.Forall₂ (fun w st => w.Stores Extcap.options st) ws sts) {o : Options}
    (ho : sts.foldl Options.store Options.initial = o) (hhelp : o.flag .help = false)
    {speed : CaptureSpeed} (hspeed : getCaptureSpeed (o.text .speed) = .ok speed)
    {trigger : CaptureTrigger} (htrigger : getCaptureTrigger (o.text .trigger) = .ok trigger) :
    parseCommandLine args = .ok ⟨o, speed, trigger, getCaptureLimit (o.text .limit)⟩ := by
  have hparse : osOptParse Extcap.options args = .returned (args.length + 1) sts := by
    rw [osOptParse, ← hargs, parseFrom_words h, List.nil_append, Nat.add_comm 1]
  simp only [parseCommandLine, hparse, ho]
  simp [hhelp, hspeed, htrigger]
  rfl

/-- A line that asks for a capture, and for nothing else. -/
theorem Reads.capture_action {args : List CString} {ws : List Word} {sts : List Store} {a : Asked}
    (hargs : ws.flatMap Word.args = args)
    (h : List.Forall₂ (fun w st => w.Stores Extcap.options st) ws sts)
    (hr : Reads (sts.foldl Options.store Options.initial) a) {path : List UInt8}
    (hcapture : a.capture = true) (hfifo : a.fifo = some path) :
    mainAction args = .capture path a.opts := by
  generalize ho : sts.foldl Options.store Options.initial = o at hr
  have hparse := parseCommandLine_words hargs h ho (hr.quiet .help (by simp)) hr.speed hr.trigger
  have hquery : handleExtcapRequest o = ⟨[], [], false⟩ := by
    simp [handleExtcapRequest, hr.quiet, hr.interface]
  have hopts : Parsed.packetOpts ⟨o, a.opts.captureSpeed, a.opts.captureTrigger,
      getCaptureLimit (o.text .limit)⟩ = a.opts := by
    simp [Parsed.packetOpts, hr.fold, hr.exclude, hr.limit]
  simp [mainAction, hparse, Parsed.action, hquery, hr.live, Options.fifo, hr.capture, hcapture,
    hr.fifo, hfifo, hopts]

/-- The program answers with these sentences, and with nothing else. -/
def Answers (args : List CString) (ss : List Sentence) : Prop :=
  ∃ stdout, mainAction args = .answered stdout [] ∧ readSentences stdout = some ss

theorem Answers.unique {args : List CString} {ss ss' : List Sentence} (h : Answers args ss)
    (h' : Answers args ss') : ss = ss' := by
  obtain ⟨stdout, hstdout, hread⟩ := h
  obtain ⟨stdout', hstdout', hread'⟩ := h'
  rw [hstdout] at hstdout'
  cases hstdout'
  exact Option.some.inj (hread.symm.trans hread')

theorem answers_listed (version : CString) :
    Answers [.ofBytes (bytesOf "--extcap-interfaces"), inlineArg (nameOf "extcap-version") version]
      listed := by
  have hinterfaces : ("extcap-interfaces", "--extcap-interfaces",
      flagRow 0 "extcap-interfaces" .extcapInterfaces) ∈ dialogueRows := by
    simp [dialogueRows]
  have hversion : ("extcap-version", "--extcap-version",
      flagRow 0 "extcap-version" .extcapVersion) ∈ dialogueRows := by
    simp [dialogueRows]
  obtain ⟨hargs', hfirst⟩ := plain_stores hinterfaces
  obtain ⟨-, hequals, hfound⟩ := dialogueRows_found _ hversion
  have hargs : ([.plain (nameOf "extcap-interfaces"),
      .inline (nameOf "extcap-version") version] : List Word).flatMap Word.args =
      [.ofBytes (bytesOf "--extcap-interfaces"), inlineArg (nameOf "extcap-version") version] := by
    simp only [List.flatMap_cons, hargs']
    rfl
  have hstores : List.Forall₂ (fun w st => Word.Stores Extcap.options st w)
      [.plain (nameOf "extcap-interfaces"), .inline (nameOf "extcap-version") version]
      [⟨.extcapInterfaces, .flag⟩, ⟨.extcapVersion, .flag⟩] :=
    .cons hfirst (.cons ⟨hequals, _, hfound, rfl, rfl⟩ .nil)
  have hparse := parseCommandLine_words hargs hstores rfl rfl rfl rfl
  refine ⟨_, ?_, listed_read.1⟩
  rw [mainAction, hparse]
  rfl

/-- A query about the interface. -/
theorem answers_query {name : CString} (hname : name.bytes = bytesOf interfaceName) {query : CString}
    {field : Field} (hquery : Word.Stores Extcap.options ⟨field, .flag⟩ (.plain query))
    (hhelp : field ≠ .help) {stdout : List (List UInt8)} {ss : List Sentence}
    (hread : readSentences stdout = some ss)
    (hreply : ∀ o : Options, o.flag = Function.update (fun _ => false) field true →
      o.foreignInterface = false → handleExtcapRequest o = ⟨stdout, [], true⟩) :
    Answers [.ofBytes (bytesOf "--extcap-interface"), name, longArg query] ss := by
  have hinterface := is_interface hname
  have hargs : ([.pair (nameOf "extcap-interface") name, .plain query] : List Word).flatMap Word.args =
      [.ofBytes (bytesOf "--extcap-interface"), name, longArg query] := by
    simp only [List.flatMap_cons, hinterface.args]
    rfl
  have hstores : List.Forall₂ (fun w st => Word.Stores Extcap.options st w)
      [.pair (nameOf "extcap-interface") name, .plain query]
      [⟨.extcapInterface, .string name.bytes⟩, ⟨field, .flag⟩] :=
    .cons hinterface.stores (.cons hquery .nil)
  let o : Options := ⟨Function.update (fun _ => false) field true,
    Function.update (fun _ => none) .extcapInterface (some name.bytes)⟩
  have ho : [(⟨.extcapInterface, .string name.bytes⟩ : Store), ⟨field, .flag⟩].foldl Options.store
      Options.initial = o := rfl
  have hforeign : o.foreignInterface = false := by simp [o, Options.foreignInterface, hname]
  have hflag : o.flag .help = false := by simp [o, Function.update_of_ne (Ne.symm hhelp)]
  have hparse := parseCommandLine_words hargs hstores ho hflag rfl rfl
  refine ⟨stdout, ?_, hread⟩
  simp [mainAction, hparse, Parsed.action, hreply o rfl hforeign]

theorem answers_linkTypes {name : CString} (hname : name.bytes = bytesOf interfaceName) :
    Answers [.ofBytes (bytesOf "--extcap-interface"), name, longArg (nameOf "extcap-dlts")]
      linkTypes := by
  have hrow : ("extcap-dlts", "--extcap-dlts", flagRow 0 "extcap-dlts" .extcapDlts) ∈
      dialogueRows := by
    simp [dialogueRows]
  refine answers_query hname (plain_stores hrow).2 (by decide) linkTypes_read.1
    fun o hflag hforeign => ?_
  simp [handleExtcapRequest, hflag, hforeign]

theorem answers_config {name : CString} (hname : name.bytes = bytesOf interfaceName) :
    Answers [.ofBytes (bytesOf "--extcap-interface"), name, longArg (nameOf "extcap-config")]
      config := by
  have hrow : ("extcap-config", "--extcap-config", flagRow 0 "extcap-config" .extcapConfig) ∈
      dialogueRows := by
    simp [dialogueRows]
  refine answers_query hname (plain_stores hrow).2 (by decide) config_read.1
    fun o hflag hforeign => ?_
  simp [handleExtcapRequest, hflag, hforeign]

/-- **The dialogue with Wireshark fits together.** The interfaces it is
told of can be asked for their link types and their settings. Whatever
is then offered makes a command line that is accepted: any of the listed
interfaces, any of the settings, a number anywhere in its range, in any
order and any number of times. It starts the capture with the options
that were chosen, a later choice over an earlier one, and both engines
announce a link type that was listed. -/
theorem wireshark_dialogue (version : CString) : ∃ listed,
    Answers [.ofBytes (bytesOf "--extcap-interfaces"), inlineArg (nameOf "extcap-version") version]
      listed ∧ interfaces listed ≠ [] ∧
    ∀ name : CString, name.bytes ∈ interfaces listed → ∃ linkTypes config,
      Answers [.ofBytes (bytesOf "--extcap-interface"), name, longArg (nameOf "extcap-dlts")]
        linkTypes ∧
      Answers [.ofBytes (bytesOf "--extcap-interface"), name, longArg (nameOf "extcap-config")]
        config ∧
      ∀ pieces : List Piece, (∀ p ∈ pieces, p.Offered (interfaces listed) config) →
        ∀ path, let asked := pieces.foldl Asked.take Asked.nothing
          asked.capture = true → asked.fifo = some path →
            mainAction (pieces.flatMap Piece.args) = .capture path asked.opts ∧
            decimal (dltForSpeed asked.opts.captureSpeed).toNat ∈ dlts linkTypes ∧
            decimal (Gen1.linkType asked.opts.captureSpeed).toNat ∈ dlts linkTypes := by
  refine ⟨listed, answers_listed version, by simp [listed_read.2], fun name hname => ?_⟩
  simp only [listed_read.2, List.mem_singleton] at hname
  refine ⟨linkTypes, config, answers_linkTypes hname, answers_config hname,
    fun pieces hoffered path => ?_⟩
  intro asked hcapture hfifo
  obtain ⟨ws, sts, hargs, hstores, hreads⟩ := pieces_are hoffered
  refine ⟨(hreads _ _ reads_initial).capture_action hargs hstores hcapture hfifo, ?_, ?_⟩
  · rw [linkTypes_read.2]
    cases asked.opts.captureSpeed <;> simp [dltForSpeed]
  · rw [linkTypes_read.2]
    cases asked.opts.captureSpeed <;> simp [Gen1.linkType]

/-- The path of the pipe that is written to. -/
def pipePath : List UInt8 := bytesOf "/tmp/wireshark_extcap_usb_sniffer"

/-- A command line that chooses the speed twice. -/
def chosenPieces : List Piece :=
  [.setting (.select (bytesOf "--speed") (bytesOf "fs")), .capture,
    .interface (.ofBytes (bytesOf interfaceName)), .setting (.set (bytesOf "--fold")),
    .fifo (.ofBytes pipePath), .setting (.enter (bytesOf "--limit") 5000),
    .setting (.select (bytesOf "--speed") (bytesOf "hs"))]

theorem chosenPieces_offered : ∀ p ∈ chosenPieces, p.Offered (interfaces listed) config := by
  obtain ⟨-, hselectors, hboolflags, hranges⟩ := config_read
  have hname : (CString.ofBytes (bytesOf interfaceName)).bytes = bytesOf interfaceName := by
    decide +kernel
  have hpath : ¬ (CString.ofBytes pipePath).dashed := by decide +kernel
  simp [chosenPieces, Piece.Offered, Setting.Offered, hselectors, hboolflags, hranges,
    listed_read.2, hname, hpath, speedNames, triggerNames]

theorem wireshark_dialogue_chosenPieces :
    mainAction (chosenPieces.flatMap Piece.args) =
      .capture pipePath ⟨true, false, .hs, .disabled, 5000⟩ := by
  obtain ⟨ss, hlisted, -, hinterface⟩ := wireshark_dialogue (.ofBytes (bytesOf "4.2"))
  obtain rfl := hlisted.unique (answers_listed _)
  have hname : (CString.ofBytes (bytesOf interfaceName)).bytes = bytesOf interfaceName := by
    decide +kernel
  have hmem : (CString.ofBytes (bytesOf interfaceName)).bytes ∈ interfaces listed := by
    rw [listed_read.2, hname]
    exact List.mem_singleton_self _
  obtain ⟨ss', ss, -, hconfig, hchosen⟩ := hinterface _ hmem
  obtain rfl := hconfig.unique (answers_config hname)
  have hopts : (chosenPieces.foldl Asked.take Asked.nothing).opts =
      ⟨true, false, .hs, .disabled, 5000⟩ := by
    decide +kernel
  have hfifo : (chosenPieces.foldl Asked.take Asked.nothing).fifo = some pipePath := by
    decide +kernel
  have haction := (hchosen chosenPieces chosenPieces_offered pipePath rfl hfifo).1
  rwa [hopts] at haction

end UsbSniffer.Extcap
