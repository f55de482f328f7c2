import Mathlib.Data.List.Perm.Basic
import Mathlib.Data.List.TakeWhile
import NybergRueppel.CommandLine.Command

/-!
What the arguments of a command say. An option and its value may be written in two ways, and the
options may be given in any order: whether a command takes its arguments, and what it takes them
for, depends only on the values of the options.
-/
namespace NybergRueppel.CommandLine

namespace Reading

variable {α β : Type}

instance : LawfulMonad Reading :=
  LawfulMonad.mk' _ (fun x => by cases x <;> rfl) (fun _ _ => rfl) (fun x _ _ => by cases x <;> rfl)

theorem ofOption_bind (x : Option α) (next : α → Option β) :
    ofOption (x >>= next) = ofOption x >>= fun a => ofOption (next a) := by
  cases x <;> rfl

theorem ofOption_bind_congr {x : Option α} {next next' : α → Reading β}
    (h : ∀ a, x = some a → next a = next' a) : ofOption x >>= next = ofOption x >>= next' := by
  cases x with
  | none => rfl
  | some a => exact h a rfl

theorem ofOption_pure (a : α) : ofOption (pure a) = pure a :=
  rfl

end Reading

/-- The name of an option without the hyphens. -/
def OptionName.text : OptionName → String
  | .curve => "curve"
  | .params => "params"
  | .key => "key"
  | .nonce => "nonce"
  | .message => "message"
  | .messageHex => "message-hex"
  | .representative => "msg-hex"
  | .hash => "hash"
  | .publicX => "pub-x"
  | .publicY => "pub-y"
  | .c => "c"
  | .d => "d"

theorem OptionName.ofText?_text (name : OptionName) : ofText? name.text = some name := by
  cases name <;> rfl

theorem OptionName.text_ne_help (name : OptionName) : name.text ≠ "help" := by
  cases name <;> decide

/-- An option and the text of its value. -/
abbrev GivenOption : Type :=
  OptionName × String

/-- The text does not look like an option: a hyphen in front is all of it. -/
def IsPlain (text : String) : Prop :=
  ∀ c cs, text.toList ≠ '-' :: c :: cs

/-- The arguments write the options down one after the other. A value stands behind an equals sign,
or it is an argument of its own if it does not look like an option. Two hyphens may end the
options. -/
inductive Spells : List String → List GivenOption → Prop where
  | nil : Spells [] []
  | endMark : Spells ["--"] []
  | joined {arguments : List String} {options : List GivenOption} (name : OptionName)
      (value : String) (h : Spells arguments options) :
      Spells (("--" ++ name.text ++ "=" ++ value) :: arguments) ((name, value) :: options)
  | separate {arguments : List String} {options : List GivenOption} (name : OptionName)
      {value : String} (hPlain : IsPlain value) (h : Spells arguments options) :
      Spells (("--" ++ name.text) :: value :: arguments) ((name, value) :: options)

/-- The arguments give the options, in any order. -/
def Supplies (arguments : List String) (options : List GivenOption) : Prop :=
  ∃ inOrder, Spells arguments inOrder ∧ inOrder.Perm options

namespace Argument

theorem ofText_hyphens {text : String} {c : Char} {cs : List Char}
    (h : text.toList = '-' :: '-' :: c :: cs) : ofText text = ofOptionText (c :: cs) := by
  rw [ofText, h]
  rfl

theorem ofText_of_isPlain {text : String} (h : IsPlain text) : ofText text = .plain text := by
  rw [ofText]
  split <;> rename_i hText
  · exact absurd hText (h _ _)
  · exact absurd hText (h _ _)
  · exact absurd hText (h _ _)
  · rfl

theorem decide_ne_equals {cs : List Char} (h : '=' ∉ cs) :
    ∀ c ∈ cs, decide (c ≠ '=') = true :=
  fun _ hMem => decide_eq_true fun hEq => h (hEq ▸ hMem)

theorem ofOptionText_of_notMem {cs : List Char} (h : '=' ∉ cs) :
    ofOptionText cs = .option (String.ofList cs) none := by
  have hDrop : cs.dropWhile (· ≠ '=') = [] := List.dropWhile_eq_nil_iff.mpr (decide_ne_equals h)
  rw [ofOptionText, hDrop]

theorem ofOptionText_append {cs : List Char} (h : '=' ∉ cs) (value : List Char) :
    ofOptionText (cs ++ '=' :: value) =
      .option (String.ofList cs) (some (String.ofList value)) := by
  rw [ofOptionText, List.dropWhile_append_of_pos (decide_ne_equals h),
    List.takeWhile_append_of_pos (decide_ne_equals h)]
  simp

theorem exists_toList_text (name : OptionName) :
    ∃ c cs, name.text.toList = c :: cs ∧ '=' ∉ c :: cs := by
  cases name <;> exact ⟨_, _, rfl, by decide⟩

/-- A name after two hyphens is an option without a value. -/
theorem ofText_separate (name : OptionName) :
    ofText ("--" ++ name.text) = .option name.text none := by
  obtain ⟨c, cs, hText, hNone⟩ := exists_toList_text name
  rw [ofText_hyphens (by rw [String.toList_append, hText]; rfl), ofOptionText_of_notMem hNone,
    ← hText, String.ofList_toList]

/-- What stands behind the equals sign is the value, whatever it holds. -/
theorem ofText_joined (name : OptionName) (value : String) :
    ofText ("--" ++ name.text ++ "=" ++ value) = .option name.text (some value) := by
  obtain ⟨c, cs, hText, hNone⟩ := exists_toList_text name
  have hArgument : ("--" ++ name.text ++ "=" ++ value).toList =
      '-' :: '-' :: c :: (cs ++ '=' :: value.toList) := by
    simp only [String.toList_append, hText]
    simp
  rw [ofText_hyphens hArgument, ← List.cons_append, ofOptionText_append hNone, ← hText,
    String.ofList_toList, String.ofList_toList]

end Argument

namespace Settings

/-- Takes the values of options one after the other. -/
def putAll? (s : Settings) (options : List GivenOption) : Option Settings :=
  options.foldlM (fun s option => s.put? option.1 option.2) s

@[simp] theorem putAll?_nil (s : Settings) : s.putAll? [] = some s :=
  rfl

@[simp] theorem putAll?_cons (s : Settings) (option : GivenOption) (options : List GivenOption) :
    s.putAll? (option :: options) = (s.put? option.1 option.2).bind (·.putAll? options) :=
  rfl

theorem putAll?_append (s : Settings) (options options' : List GivenOption) :
    s.putAll? (options ++ options') = (s.putAll? options).bind (·.putAll? options') :=
  List.foldlM_append

theorem putNamed?_text {allowed : List OptionName} {name : OptionName} (h : name ∈ allowed)
    (s : Settings) (value : String) : s.putNamed? allowed name.text value = s.put? name value := by
  rw [putNamed?, OptionName.ofText?_text]
  exact if_pos (List.contains_iff_mem.mpr h)

/-- Reading takes the values in the order in which they are written. -/
theorem read_of_spells {allowed : List OptionName} {arguments : List String}
    {options : List GivenOption} (h : Spells arguments options)
    (hAllowed : ∀ option ∈ options, option.1 ∈ allowed) (s : Settings) :
    read allowed s arguments = .ofOption (s.putAll? options) := by
  induction h generalizing s with
  | nil => rfl
  | endMark => rfl
  | joined name value _ ih =>
      obtain ⟨hName, hRest⟩ := List.forall_mem_cons.mp hAllowed
      rw [read, Argument.ofText_joined]
      dsimp only
      rw [putNamed?_text hName, putAll?_cons]
      cases s.put? name value with
      | none => rfl
      | some s => exact ih hRest s
  | @separate _ _ name value hPlain _ ih =>
      obtain ⟨hName, hRest⟩ := List.forall_mem_cons.mp hAllowed
      rw [read, Argument.ofText_separate]
      dsimp only
      rw [if_neg name.text_ne_help, Argument.ofText_of_isPlain hPlain]
      dsimp only
      rw [putNamed?_text hName, putAll?_cons]
      cases s.put? name value with
      | none => rfl
      | some s => exact ih hRest s

/-- Two steps that may fail can be made in either order if neither sees what the other does. -/
theorem bind_map_comm {α β σ : Type} {x : Option α} {y : Option β} {put : α → σ} {put' : β → σ}
    {next next' : σ → Option σ} {both : α → β → σ}
    (h : ∀ a, next (put a) = y.map (both a)) (h' : ∀ b, next' (put' b) = x.map (both · b)) :
    (x.map put).bind next = (y.map put').bind next' := by
  cases x <;> cases y <;> simp [h, h']

/-- Different options fill different places. -/
theorem put?_comm {name name' : OptionName} (h : name ≠ name') (s : Settings)
    (value value' : String) :
    (s.put? name value).bind (·.put? name' value') =
      (s.put? name' value').bind (·.put? name value) := by
  cases name <;> cases name' <;>
    first | exact absurd rfl h | exact bind_map_comm (fun _ => rfl) (fun _ => rfl)

/-- If no option is given twice, their order does not matter. -/
theorem putAll?_perm {options options' : List GivenOption} (h : options.Perm options')
    (hDistinct : (options.map Prod.fst).Nodup) (s : Settings) :
    s.putAll? options = s.putAll? options' := by
  induction h generalizing s with
  | nil => rfl
  | cons option _ ih =>
      rw [List.map_cons, List.nodup_cons] at hDistinct
      rw [putAll?_cons, putAll?_cons]
      exact Option.bind_congr fun s _ => ih hDistinct.2 s
  | swap first second rest =>
      have hNe : second.1 ≠ first.1 := by
        rw [List.map_cons, List.map_cons, List.nodup_cons] at hDistinct
        exact fun hEq => hDistinct.1 (hEq ▸ List.mem_cons_self)
      simp only [putAll?_cons, ← Option.bind_assoc]
      rw [put?_comm hNe]
  | trans hFirst _ ih ih' =>
      rw [ih hDistinct, ih' ((hFirst.map Prod.fst).nodup_iff.mp hDistinct)]

/-- What is read from the arguments depends only on the options that they give. -/
theorem read_of_supplies {allowed : List OptionName} {arguments : List String}
    {options : List GivenOption} (h : Supplies arguments options)
    (hNames : (options.map Prod.fst).Sublist allowed) (hDistinct : allowed.Nodup) (s : Settings) :
    read allowed s arguments = .ofOption (s.putAll? options) := by
  obtain ⟨inOrder, hSpells, hPerm⟩ := h
  have hAllowed : ∀ option ∈ inOrder, option.1 ∈ allowed := fun option hMem =>
    hNames.subset (List.mem_map_of_mem (hPerm.mem_iff.mp hMem))
  rw [read_of_spells hSpells hAllowed,
    putAll?_perm hPerm ((hPerm.map Prod.fst).nodup_iff.mpr (hDistinct.sublist hNames))]

end Settings

/-- The options for the source of a curve. -/
def CurveSource.options : CurveSource → List GivenOption
  | .standard => []
  | .named name => [(.curve, name)]
  | .file path => [(.params, path)]

/-- A source can be given, unless it is a file without a path. -/
def CurveSource.checked? (source : CurveSource) : Option CurveSource :=
  if source = .file "" then none else some source

theorem CurveSource.names_options (source : CurveSource) :
    (source.options.map Prod.fst).Sublist [.curve, .params] := by
  cases source <;> simp [options]

/-- The forms in which a message is given. -/
inductive MessageForm where
  | text
  | hexBytes
  | representative

/-- The option for a message in a form. -/
def MessageForm.optionName : MessageForm → OptionName
  | .text => .message
  | .hexBytes => .messageHex
  | .representative => .representative

/-- A message as it is given: its form, its text, and the name of a digest function if there is
one. -/
structure GivenMessage where
  form : MessageForm
  text : String
  hash : Option String

namespace GivenMessage

/-- The options for a message. -/
def options (given : GivenMessage) : List GivenOption :=
  (given.form.optionName, given.text) :: (given.hash.map (OptionName.hash, ·)).toList

/-- The source of a message; only a representative is read as a number right away. -/
def source? (given : GivenMessage) : Option MessageSource :=
  match given.form with
  | .text => some (.text given.text)
  | .hexBytes => some (.hexBytes given.text)
  | .representative => (readNumber? given.text).map .representative

/-- The digest function that is asked for; a name that is given has to be known. -/
def hash? (given : GivenMessage) : Option (Option HashAlgorithm) :=
  given.hash.mapM HashAlgorithm.ofName?

theorem names_options (given : GivenMessage) :
    (given.options.map Prod.fst).Sublist [.message, .messageHex, .representative, .hash] := by
  obtain ⟨_ | _ | _, text, _ | hash⟩ := given <;> simp [options, MessageForm.optionName]

end GivenMessage

namespace Settings

/-- The settings with the source of a curve. -/
def withCurve (s : Settings) : CurveSource → Settings
  | .standard => s
  | .named name => { s with curve := some name }
  | .file path => { s with params := some path }

/-- The settings with the source of a message. -/
def withMessage (s : Settings) : MessageSource → Settings
  | .text words => { s with message := some words }
  | .hexBytes digits => { s with messageHex := some digits }
  | .representative m => { s with representative := some m }

theorem putAll?_curve (source : CurveSource) :
    ({} : Settings).putAll? source.options =
      (do return ({} : Settings).withCurve (← source.checked?)) := by
  cases source with
  | standard => rfl
  | named name => rfl
  | file path =>
      by_cases hPath : path = ""
      · subst hPath
        rfl
      · have hChecked : CurveSource.checked? (.file path) = some (.file path) :=
          if_neg (mt CurveSource.file.inj hPath)
        have hRead : readPath? path = some path :=
          if_neg (mt String.isEmpty_iff.mp hPath)
        rw [hChecked]
        simp [CurveSource.options, put?, hRead, fill?, withCurve]

/-- Nothing about the message has been given yet. -/
structure LacksMessage (s : Settings) : Prop where
  message_eq : s.message = none
  messageHex_eq : s.messageHex = none
  representative_eq : s.representative = none
  hash_eq : s.hash = none

theorem LacksMessage.put?_form {s : Settings} (h : s.LacksMessage) (given : GivenMessage) :
    s.put? given.form.optionName given.text = given.source?.map s.withMessage := by
  obtain ⟨form, text, hash⟩ := given
  cases form with
  | text => rw [MessageForm.optionName, put?, h.message_eq]; rfl
  | hexBytes => rw [MessageForm.optionName, put?, h.messageHex_eq]; rfl
  | representative =>
      rw [MessageForm.optionName, put?, h.representative_eq, GivenMessage.source?]
      cases readNumber? text <;> rfl

/-- The options for a message fill its place and that of the digest function. -/
theorem LacksMessage.putAll?_message {s : Settings} (h : s.LacksMessage) (given : GivenMessage) :
    s.putAll? given.options = (do
      let source ← given.source?
      let hash ← given.hash?
      return { s.withMessage source with hash := hash }) := by
  rw [GivenMessage.options, putAll?_cons, h.put?_form, GivenMessage.hash?]
  cases given.source? with
  | none => rfl
  | some source =>
      have hPlace : (s.withMessage source).hash = none := by cases source <;> exact h.hash_eq
      cases given.hash with
      | none =>
          change some (s.withMessage source) = some { s.withMessage source with hash := none }
          rw [← hPlace]
      | some name =>
          change ((s.withMessage source).put? .hash name).bind some =
            ((HashAlgorithm.ofName? name).map some).bind fun hash =>
              some { s.withMessage source with hash := hash }
          rw [put?, hPlace]
          cases HashAlgorithm.ofName? name <;> rfl

end Settings

theorem splitAtCommas_eq_splitOn (cs : List Char) : splitAtCommas cs = cs.splitOn ',' := by
  fun_induction splitAtCommas cs with
  | case1 => rfl
  | case2 rest ih => rw [List.splitOn_cons_eq_if_modifyHead, if_pos (beq_self_eq_true ','), ih]
  | case3 c rest hComma hPieces ih =>
      exact absurd (ih.symm.trans hPieces) (List.splitOn_ne_nil ',' rest)
  | case4 c rest hComma piece pieces hPieces ih =>
      rw [List.splitOn_cons_eq_if_modifyHead, if_neg (mt beq_iff_eq.mp hComma), ← ih, hPieces]
      rfl

/-- Whatever is read as a coordinate has a coefficient. -/
theorem ne_nil_of_readCoefficients?_eq {text : String} {xs : List (FixedNat limbCount)}
    (h : readCoefficients? text = some xs) : xs ≠ [] := by
  rintro rfl
  rw [readCoefficients?] at h
  cases hPieces : splitAtCommas text.toList with
  | nil =>
      rw [splitAtCommas_eq_splitOn] at hPieces
      exact List.splitOn_ne_nil ',' _ hPieces
  | cons piece pieces =>
      rw [hPieces, List.mapM_cons] at h
      obtain ⟨x, -, h⟩ := Option.bind_eq_some_iff.mp h
      obtain ⟨xs, -, h⟩ := Option.bind_eq_some_iff.mp h
      cases h

namespace Command

variable {arguments : List String} {source : CurveSource} {given : GivenMessage}

/-- The options for a public key. -/
def publishingOptions (source : CurveSource) (key : String) : List GivenOption :=
  source.options ++ [(.key, key)]

/-- The options for a signature. -/
def signingOptions (source : CurveSource) (given : GivenMessage) (key nonce : String) :
    List GivenOption :=
  source.options ++ [(.key, key), (.nonce, nonce)] ++ given.options

/-- The options for checking a signature. -/
def checkingOptions (source : CurveSource) (given : GivenMessage) (x y c d : String) :
    List GivenOption :=
  source.options ++ [(.publicX, x), (.publicY, y), (.c, c), (.d, d)] ++ given.options

/-- The command for public keys needs a key. -/
theorem read_pubkey_eq {key : String} (h : Supplies arguments (publishingOptions source key)) :
    read ("pubkey" :: arguments) = .ofOption (do
      let source ← source.checked?
      let key ← readNumber? key
      return .publicKey source key) := by
  have hNames : ((publishingOptions source key).map Prod.fst).Sublist publicKeyOptions := by
    rw [publishingOptions, List.map_append]
    exact source.names_options.append (List.Sublist.refl _)
  have hNumbers (source : CurveSource) :
      (({} : Settings).withCurve source).putAll? [(.key, key)] = (do
        let key ← readNumber? key
        return { ({} : Settings).withCurve source with key := some key }) := by
    simp only [Settings.putAll?_cons, Settings.put?]
    cases source <;> cases readNumber? key <;> rfl
  change readPublicKey arguments = _
  rw [readPublicKey, Settings.read_of_supplies h hNames (by decide), publishingOptions,
    Settings.putAll?_append, Settings.putAll?_curve, ← Option.bind_eq_bind]
  simp only [bind_assoc, pure_bind, hNumbers, Reading.ofOption_bind, Reading.ofOption_pure]
  refine bind_congr fun source => bind_congr fun key => ?_
  cases source <;> rfl

/-- Signing needs a key, a nonce and a message. -/
theorem read_sign_eq {key nonce : String}
    (h : Supplies arguments (signingOptions source given key nonce)) :
    read ("sign" :: arguments) = .ofOption (do
      let source ← source.checked?
      let key ← readNumber? key
      let nonce ← readNumber? nonce
      let message ← given.source?
      let hash ← given.hash?
      return .sign source key nonce message (hash.getD .sha256)) := by
  have hNames : ((signingOptions source given key nonce).map Prod.fst).Sublist signOptions := by
    rw [signingOptions, List.map_append, List.map_append]
    exact (source.names_options.append (List.Sublist.refl _)).append given.names_options
  have hNumbers (source : CurveSource) :
      (({} : Settings).withCurve source).putAll? [(.key, key), (.nonce, nonce)] = (do
        let key ← readNumber? key
        let nonce ← readNumber? nonce
        return { ({} : Settings).withCurve source with
          key := some key
          nonce := some nonce }) := by
    simp only [Settings.putAll?_cons, Settings.put?]
    cases source <;> cases readNumber? key <;> cases readNumber? nonce <;> rfl
  have hLacks (source : CurveSource) (key nonce : BufferedInt) :
      Settings.LacksMessage { ({} : Settings).withCurve source with
        key := some key
        nonce := some nonce } := by
    cases source <;> exact ⟨rfl, rfl, rfl, rfl⟩
  change readSign arguments = _
  rw [readSign, Settings.read_of_supplies h hNames (by decide), signingOptions,
    Settings.putAll?_append, Settings.putAll?_append, Settings.putAll?_curve]
  simp only [← Option.bind_eq_bind, bind_assoc, pure_bind, hNumbers, (hLacks _ _ _).putAll?_message,
    Reading.ofOption_bind, Reading.ofOption_pure]
  refine bind_congr fun source => bind_congr fun key => bind_congr fun nonce =>
    bind_congr fun message => bind_congr fun hash => ?_
  cases source <;> cases message <;> rfl

/-- Checking needs a public key, a signature and a message. -/
theorem read_verify_eq {x y c d : String}
    (h : Supplies arguments (checkingOptions source given x y c d)) :
    read ("verify" :: arguments) = .ofOption (do
      let source ← source.checked?
      let x ← readCoefficients? x
      let y ← readCoefficients? y
      let c ← readNumber? c
      let d ← readNumber? d
      let message ← given.source?
      let hash ← given.hash?
      return .verify source x y c d message (hash.getD .sha256)) := by
  have hNames : ((checkingOptions source given x y c d).map Prod.fst).Sublist verifyOptions := by
    rw [checkingOptions, List.map_append, List.map_append]
    exact (source.names_options.append (List.Sublist.refl _)).append given.names_options
  have hNumbers (source : CurveSource) :
      (({} : Settings).withCurve source).putAll?
        [(.publicX, x), (.publicY, y), (.c, c), (.d, d)] = (do
          let x ← readCoefficients? x
          let y ← readCoefficients? y
          let c ← readNumber? c
          let d ← readNumber? d
          return { ({} : Settings).withCurve source with
            publicX := x
            publicY := y
            c := some c
            d := some d }) := by
    simp only [Settings.putAll?_cons, Settings.put?]
    cases source <;> cases readCoefficients? x <;> cases readCoefficients? y <;>
      cases readNumber? c <;> cases readNumber? d <;> rfl
  have hLacks (source : CurveSource) (x y : List (FixedNat limbCount)) (c d : BufferedInt) :
      Settings.LacksMessage { ({} : Settings).withCurve source with
        publicX := x
        publicY := y
        c := some c
        d := some d } := by
    cases source <;> exact ⟨rfl, rfl, rfl, rfl⟩
  change readVerify arguments = _
  rw [readVerify, Settings.read_of_supplies h hNames (by decide), checkingOptions,
    Settings.putAll?_append, Settings.putAll?_append, Settings.putAll?_curve]
  simp only [← Option.bind_eq_bind, bind_assoc, pure_bind, hNumbers,
    (hLacks _ _ _ _ _).putAll?_message, Reading.ofOption_bind, Reading.ofOption_pure]
  refine bind_congr fun source => Reading.ofOption_bind_congr fun xs hx =>
    Reading.ofOption_bind_congr fun ys hy => bind_congr fun c => bind_congr fun d =>
      bind_congr fun message => bind_congr fun hash => ?_
  obtain ⟨_, _, rfl⟩ := List.exists_cons_of_ne_nil (ne_nil_of_readCoefficients?_eq hx)
  obtain ⟨_, _, rfl⟩ := List.exists_cons_of_ne_nil (ne_nil_of_readCoefficients?_eq hy)
  cases source <;> cases message <;> rfl

end Command

end NybergRueppel.CommandLine
