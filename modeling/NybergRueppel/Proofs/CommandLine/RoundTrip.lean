import NybergRueppel.Proofs.CommandLine.Printed
import NybergRueppel.Proofs.Group.Builtin
import NybergRueppel.Proofs.Group.Points
import NybergRueppel.Proofs.Signature.Hashed

/-!
Commands that check what other commands printed. A signature and a public key that were printed are
read again as the same numbers and the same point, so that verification decides on them as it does
on what was computed.
-/
namespace NybergRueppel

namespace CurveGroup.OverPrimeField

variable {n : Nat} {group : CurveGroup n} (h : group.OverPrimeField)

include h in
theorem prime_modulus : group.field.modulus.toNat.Prime :=
  h.isPrimeField.prime

/-- Signatures with the same signs and magnitudes satisfy the same equations. -/
theorem Signs.of_eq {h : group.OverPrimeField} {signature read : Signature} {m x k : Nat}
    (hSigns : h.Signs signature m x k)
    (hc : read.c.isNegative = signature.c.isNegative ∧ read.c.magnitude = signature.c.magnitude)
    (hd : read.d.isNegative = signature.d.isNegative ∧ read.d.magnitude = signature.d.magnitude) :
    h.Signs read m x k where
  isNegative_c := hc.1.trans hSigns.isNegative_c
  isNegative_d := hd.1.trans hSigns.isNegative_d
  magnitude_c := hc.2.trans hSigns.magnitude_c
  magnitude_c_ne_zero := hc.2 ▸ hSigns.magnitude_c_ne_zero
  magnitude_d_lt := hd.2 ▸ hSigns.magnitude_d_lt
  equation := by
    rw [hc.2, hd.2]
    exact hSigns.equation

include h in
/-- Every coordinate has a coefficient. -/
theorem ne_nil_of_toAffine?_eq {p : JacobianPoint n} {xs ys : List (FixedNat n)}
    (hAffine : group.toAffine? p = some (xs, ys)) : xs ≠ [] ∧ ys ≠ [] := by
  obtain ⟨⟨x, y⟩, -, hEq⟩ := Option.map_eq_some_iff.mp hAffine
  cases hEq
  have hLength (a : FieldElement n) : (group.field.decode a).length = 1 :=
    (CoordinateField.length_decode a).trans h.isPrimeField.degree_eq_one
  exact ⟨List.ne_nil_of_length_eq_add_one (hLength x), List.ne_nil_of_length_eq_add_one (hLength y)⟩

/-- The coordinates of a finite point of the group are taken in as the same point. -/
theorem exists_ofAffine {p : JacobianPoint n} {P : h.Point} (hp : h.Holds p P)
    {xs ys : List (FixedNat n)} (hAffine : group.toAffine? p = some (xs, ys)) :
    ∃ q, group.ofAffine xs ys = .ok q ∧ h.Holds q P := by
  have hFinite : p.isInfinity = false := by
    rw [Bool.eq_false_iff]
    intro hInfinity
    rw [toAffine?, Curve.affine?, if_pos hInfinity] at hAffine
    cases hAffine
  have hPoint : group.HasPoint p := ⟨hp.represents.onCurve, hp.elementLength_eq⟩
  obtain ⟨xs', ys', q, hAffine', hq, hOn, hSame⟩ :=
    hPoint.exists_ofAffine h.isPrimeField.realization h.isAccepted hFinite
  rw [hAffine, Option.some.injEq, Prod.mk.injEq] at hAffine'
  obtain ⟨rfl, rfl⟩ := hAffine'
  refine ⟨q, hq, ⟨hOn.onCurve, ?_⟩, hOn.elementLength_eq⟩
  rw [← hp.represents.point_eq]
  exact (Curve.samePoint_iff _ h.isAccepted hOn.onCurve hp.represents.onCurve).mp hSame

end CurveGroup.OverPrimeField

namespace CommandLine

variable {group : CurveGroup limbCount}

/-- A representative of a message is normal; bytes have one of their own. -/
def Message.IsNormal : Message → Prop
  | .representative m => m.IsNormal
  | .bytes _ => True

/-- Signing and checking a message are signing and checking a representative of it. -/
theorem Message.IsNormal.exists_representative {message : Message} (h : message.IsNormal)
    (group : CurveGroup limbCount) (algorithm : HashAlgorithm) :
    ∃ m : BufferedInt, m.IsNormal ∧
      signIn group message algorithm = signIn group (.representative m) algorithm ∧
      check group message algorithm = check group (.representative m) algorithm := by
  cases message with
  | representative m => exact ⟨m, h, rfl, rfl⟩
  | bytes bytes =>
      let m := BufferedInt.ofFixed
        (group.order.reduce (group.leftmostBits (algorithm.digest bytes)))
      have hNormal : m.IsNormal := BufferedInt.isNormal_ofFixed _
      have hm : m.toInt = group.truncatedDigest (algorithm.digest bytes) := by
        rw [BufferedInt.toInt_ofFixed, GroupOrder.toNat_reduce, ← CurveGroup.digestNumber_eq]
        rfl
      refine ⟨m, hNormal, ?_, ?_⟩
      · funext key nonce ws
        simp only [signIn, CurveGroup.signMessage_eq_sign _ _ _ _ _ hNormal hm]
      · funext key signature
        simp only [check, CurveGroup.verifyMessage_eq_verify _ _ _ _ hNormal hm]

/-- The numbers that are read are normal. -/
theorem isNormal_of_readNumber?_eq {text : String} {a : BufferedInt}
    (h : readNumber? text = some a) : a.IsNormal := by
  cases hRead : BufferedInt.ofHex text with
  | error failure =>
      rw [readNumber?, hRead] at h
      cases h
  | ok b =>
      rw [readNumber?, hRead] at h
      cases h
      exact BufferedInt.isNormal_of_ofHex_eq hRead

theorem GivenMessage.isNormal_of_resolve_eq {given : GivenMessage} {source : MessageSource}
    (hSource : given.source? = some source) {message : Message}
    (h : source.resolve = .ok message) : message.IsNormal := by
  obtain ⟨form, text, hash⟩ := given
  cases form with
  | text =>
      cases hSource
      cases h
      trivial
  | hexBytes =>
      cases hSource
      rw [MessageSource.resolve] at h
      split at h
      · cases h
        trivial
      · cases h
  | representative =>
      obtain ⟨m, hRead, rfl⟩ := Option.map_eq_some_iff.mp hSource
      cases h
      exact isNormal_of_readNumber?_eq hRead

/-- A call of the command line ends as the call in a fresh workspace does. -/
theorem call_eq_of_gives {α : Type} {tables : Nat} {c : Call limbCount α} {result : Except Stop α}
    (h : c.Gives (freshWorkspace tables) result) : call tables c = result.mapError .stopped := by
  obtain ⟨ws', hEnds⟩ := h
  have hRun : c.run (freshWorkspace tables) = (result, ws') := hEnds
  rw [call, hRun]

theorem isReady_freshWorkspace : (freshWorkspace verifyTables).IsReady :=
  ⟨by decide, by decide, by decide⟩

theorem signIn_representative_eq_ok {m key nonce : BufferedInt} {algorithm : HashAlgorithm}
    {ws : Workspace limbCount} {signature : Signature}
    (h : signIn group (.representative m) algorithm key nonce ws = .ok signature) :
    ∃ ws', (group.sign m key nonce (.blank group)).run ws = ((.ok (), signature), ws') := by
  rw [signIn] at h
  split at h <;> rename_i hRun
  · cases h
    exact ⟨_, Prod.ext hRun rfl⟩
  · cases h

/-- What a command for signing answers: a signature with the equations of the representative that is
checked for the message. -/
structure Signed (h : group.OverPrimeField) (source : MessageSource) (algorithm : HashAlgorithm)
    (key nonce : BufferedInt) (answer : Answer) : Prop where
  key_inRange : 0 < key.toInt ∧ key.toInt < group.order.modulus.toNat
  nonce_inRange : 0 < nonce.toInt ∧ nonce.toInt < group.order.modulus.toNat
  exists_signature : ∃ (message : Message) (m : BufferedInt) (signature : Signature),
    source.resolve = .ok message ∧
      check group message algorithm = check group (.representative m) algorithm ∧
      (0 < m.toInt ∧ m.toInt < group.order.modulus.toNat) ∧
      signature.c.IsNormal ∧ signature.d.IsNormal ∧
      h.Signs signature m.toInt.toNat key.toInt.toNat nonce.toInt.toNat ∧
      answer = { lines := signatureLines signature }

theorem signed_of_answerSign_eq_ok (h : group.OverPrimeField) {key nonce : BufferedInt}
    (hKey : key.IsNormal) (hNonce : nonce.IsNormal) {source : MessageSource}
    (hSource : ∀ message, source.resolve = .ok message → message.IsNormal)
    {algorithm : HashAlgorithm} {answer : Answer}
    (hAnswer : answerSign group key nonce source algorithm = .ok answer) :
    Signed h source algorithm key nonce answer := by
  obtain ⟨message, hMessage, hAnswer⟩ := exists_of_bind_eq_ok hAnswer
  obtain ⟨signature, hSigned, hAnswer⟩ := exists_of_bind_eq_ok hAnswer
  cases hAnswer
  obtain ⟨m, hNormal, hSign, hCheck⟩ :=
    (hSource message hMessage).exists_representative group algorithm
  rw [hSign] at hSigned
  obtain ⟨ws', hRun⟩ := signIn_representative_eq_ok hSigned
  obtain ⟨hMessageRange, hKeyRange, hNonceRange⟩ :=
    CurveGroup.inRange_of_run_sign_eq_ok hNormal hKey hNonce hRun
  have hSigns := h.signs_of_run_sign_eq_ok hMessageRange hKeyRange hNonceRange hRun
  obtain ⟨c, d, hStore⟩ := CurveGroup.of_run_sign_eq_ok hRun
  have hRooms := Signature.room_blank group
  obtain ⟨hStoredC, hStoredD⟩ := Signature.of_store_eq
    (group.order.one_le_words.trans hRooms.1) (group.order.one_le_words.trans hRooms.2) hStore
  exact ⟨hKeyRange, hNonceRange, message, m, signature, hMessage, hCheck, hMessageRange,
    hStoredC.isNormal, hStoredD.isNormal, hSigns, rfl⟩

/-- Signing answers with a signature unless the nonce is degenerate. -/
theorem exists_answerSign (h : group.OverPrimeField) {m key nonce : BufferedInt}
    (hMessage : 0 < m.toInt ∧ m.toInt < group.order.modulus.toNat)
    (hKey : 0 < key.toInt ∧ key.toInt < group.order.modulus.toNat)
    (hNonce : 0 < nonce.toInt ∧ nonce.toInt < group.order.modulus.toNat)
    (hPoint : nonce.toInt.toNat • h.basePoint ≠ 0)
    (hFirst : h.firstComponent m.toInt.toNat (nonce.toInt.toNat • h.basePoint) ≠ 0)
    (algorithm : HashAlgorithm) :
    ∃ signature, h.Signs signature m.toInt.toNat key.toInt.toNat nonce.toInt.toNat ∧
      answerSign group key nonce (.representative m) algorithm =
        .ok { lines := signatureLines signature } := by
  have hReady : (freshWorkspace signTables).IsReadyToSign := ⟨by decide, by decide⟩
  have hRooms := Signature.room_blank group
  obtain ⟨result, signature, ws', hRun, hCases⟩ :=
    h.run_sign_cases hReady hMessage hKey hNonce hRooms.1 hRooms.2
  rcases hCases with ⟨hZero | hZero, -⟩ | ⟨-, rfl, hSigns⟩
  · exact absurd hZero hPoint
  · exact absurd hZero hFirst
  · refine ⟨signature, hSigns, ?_⟩
    have hSigned : signIn group (.representative m) algorithm key nonce
        (freshWorkspace signTables) = .ok signature := by
      rw [signIn, hRun]
    rw [answerSign, MessageSource.resolve]
    dsimp only [bind, Except.bind]
    rw [hSigned]
    rfl

/-- The command for public keys answers every key between zero and the order with coordinates that
are taken in as the multiple of the base point. -/
theorem exists_answerPublicKey (h : group.OverPrimeField)
    (hOrder : addOrderOf h.basePoint = group.order.modulus.toNat) {key : BufferedInt}
    (hKey : 0 < key.toInt ∧ key.toInt < group.order.modulus.toNat) :
    ∃ xs ys q, xs ≠ [] ∧ ys ≠ [] ∧ group.ofAffine xs ys = .ok q ∧
      h.Holds q (key.toInt.toNat • h.basePoint) ∧ answerPublicKey group key =
        .ok { lines := ["x = " ++ coordinateText xs, "y = " ++ coordinateText ys] } := by
  obtain ⟨product, hProduct, hEnds⟩ :=
    h.ends_publicKey (freshWorkspace signTables) hKey.1 hKey.2 (by decide)
  have hNe : key.toInt.toNat • h.basePoint ≠ 0 :=
    h.nsmul_basePoint_ne_zero hOrder (by omega) (by omega)
  rcases h.affine?_eq hProduct with ⟨hZero, -⟩ | ⟨-, x, y, hSome, -⟩
  · exact absurd hZero hNe
  · have hAffine : group.toAffine? product = some (group.field.decode x, group.field.decode y) := by
      rw [CurveGroup.toAffine?, hSome]
      rfl
    obtain ⟨q, hq, hHolds⟩ := h.exists_ofAffine hProduct hAffine
    obtain ⟨hx, hy⟩ := h.ne_nil_of_toAffine?_eq hAffine
    refine ⟨_, _, q, hx, hy, hq, hHolds, ?_⟩
    rw [answerPublicKey, call_eq_of_gives hEnds.gives]
    dsimp only [Except.mapError, bind, Except.bind]
    rw [hAffine]
    rfl

/-- A printed signature is valid under a printed key, unless its second component is zero. -/
theorem answerVerify_of_signed (h : group.OverPrimeField)
    (hOrder : addOrderOf h.basePoint = group.order.modulus.toNat) {key nonce m : BufferedInt}
    (hKey : 0 < key.toInt ∧ key.toInt < group.order.modulus.toNat)
    (hNonce : 0 < nonce.toInt ∧ nonce.toInt < group.order.modulus.toNat)
    (hMessage : 0 < m.toInt ∧ m.toInt < group.order.modulus.toNat) {source : MessageSource}
    {message : Message} (hResolve : source.resolve = .ok message) {algorithm : HashAlgorithm}
    (hCheck : check group message algorithm = check group (.representative m) algorithm)
    {xs ys : List (FixedNat limbCount)} {q : JacobianPoint limbCount}
    (hPoint : group.ofAffine xs ys = .ok q) (hHolds : h.Holds q (key.toInt.toNat • h.basePoint))
    {signature : Signature}
    (hSigns : h.Signs signature m.toInt.toNat key.toInt.toNat nonce.toInt.toNat) :
    answerVerify group xs ys signature.c signature.d source algorithm =
      let verdict : Verdict := if signature.d.magnitude = 0 then .invalid else .valid
      .ok { lines := [verdict.text], holds := verdict.isValid } := by
  have hVerified := h.gives_verify_of_signs hOrder isReady_freshWorkspace hMessage
    (by omega) (by omega) hHolds hSigns
  simp only [BufferedInt.toInt_eq_magnitude hSigns.isNegative_d, Int.natCast_eq_zero] at hVerified
  rw [answerVerify, hPoint, hResolve]
  dsimp only [ofExcept, bind, Except.bind]
  rw [hCheck, check, call_eq_of_gives hVerified]
  rfl

section Runs

variable {outside : Surroundings Id} {source : CurveSource} {p : DomainParameters}

theorem CurveSource.eq_of_checked?_eq {source' : CurveSource}
    (h : source.checked? = some source') : source' = source := by
  rw [checked?] at h
  split at h
  · cases h
  · exact (Option.some.inj h).symm

theorem load_eq (hSource : (source.parameters outside).run.run = .ok p)
    (hGroup : CurveGroup.ofParameters limbCount p = .ok group) :
    source.load outside = ExceptT.mk (pure (.ok group)) := by
  have hParameters : source.parameters outside = ExceptT.mk (pure (.ok p)) := hSource
  rw [CurveSource.load, hParameters]
  exact congrArg ofExcept hGroup

/-- A run whose arguments are read ends with the outcome of the command. -/
theorem run_eq_of_read_eq {arguments : List String} {command : Command}
    (hRead : Command.read arguments = .accepted command) :
    (run outside arguments).run = Report.ofOutcome (command.run outside).run.run := by
  rw [run, hRead]
  rfl

section Loaded

variable {given : GivenMessage} {arguments : List String} {k : BufferedInt}
  {message : MessageSource} {hash : Option HashAlgorithm}
  (hLoad : source.load outside = ExceptT.mk (pure (.ok group)))
  (hChecked : source.checked? = some source)

include hLoad hChecked

theorem run_pubkey_eq {key : String}
    (h : Supplies arguments (Command.publishingOptions source key))
    (hKey : readNumber? key = some k) :
    (run outside ("pubkey" :: arguments)).run = Report.ofOutcome (answerPublicKey group k) := by
  have hRead := Command.read_pubkey_eq h
  rw [hChecked, hKey] at hRead
  rw [run_eq_of_read_eq hRead, Command.run, hLoad]
  rfl

theorem run_sign_eq {key nonce : String} {n : BufferedInt}
    (h : Supplies arguments (Command.signingOptions source given key nonce))
    (hKey : readNumber? key = some k) (hNonce : readNumber? nonce = some n)
    (hMessage : given.source? = some message) (hHash : given.hash? = some hash) :
    (run outside ("sign" :: arguments)).run =
      Report.ofOutcome (answerSign group k n message (hash.getD .sha256)) := by
  have hRead := Command.read_sign_eq h
  rw [hChecked, hKey, hNonce, hMessage, hHash] at hRead
  rw [run_eq_of_read_eq hRead, Command.run, hLoad]
  rfl

theorem run_verify_eq {x y c d : String} {xs ys : List (FixedNat limbCount)}
    {first second : BufferedInt}
    (h : Supplies arguments (Command.checkingOptions source given x y c d))
    (hx : readCoefficients? x = some xs) (hy : readCoefficients? y = some ys)
    (hc : readNumber? c = some first) (hd : readNumber? d = some second)
    (hMessage : given.source? = some message) (hHash : given.hash? = some hash) :
    (run outside ("verify" :: arguments)).run = Report.ofOutcome
      (answerVerify group xs ys first second message (hash.getD .sha256)) := by
  have hRead := Command.read_verify_eq h
  rw [hChecked, hx, hy, hc, hd, hMessage, hHash] at hRead
  rw [run_eq_of_read_eq hRead, Command.run, hLoad]
  rfl

end Loaded

/-- A command for signing that ends with the exit code zero has read its options, and it prints a
signature. -/
theorem signed_of_exitCode_eq_zero (h : group.OverPrimeField)
    (hLoad : source.load outside = ExceptT.mk (pure (.ok group))) {given : GivenMessage}
    {key nonce : String} {arguments : List String}
    (hSigning : Supplies arguments (Command.signingOptions source given key nonce))
    (hExit : (run outside ("sign" :: arguments)).run.exitCode = 0) :
    ∃ k n message hash answer, source.checked? = some source ∧ readNumber? key = some k ∧
      given.source? = some message ∧ given.hash? = some hash ∧
      Signed h message (hash.getD .sha256) k n answer ∧
      (run outside ("sign" :: arguments)).run.output = linesText answer.lines := by
  have hRead := Command.read_sign_eq hSigning
  generalize hCommand : (do
      let source ← source.checked?
      let key ← readNumber? key
      let nonce ← readNumber? nonce
      let message ← given.source?
      let hash ← given.hash?
      return Command.sign source key nonce message (hash.getD .sha256)) = command? at hRead
  cases command? with
  | none =>
      rw [run, hRead] at hExit
      have hRefused : (2 : UInt32) = 0 := hExit
      exact absurd hRefused (by decide)
  | some command =>
      obtain ⟨source', hSource, hCommand⟩ := Option.bind_eq_some_iff.mp hCommand
      obtain ⟨k, hKey, hCommand⟩ := Option.bind_eq_some_iff.mp hCommand
      obtain ⟨n, hNonce, hCommand⟩ := Option.bind_eq_some_iff.mp hCommand
      obtain ⟨message, hMessage, hCommand⟩ := Option.bind_eq_some_iff.mp hCommand
      obtain ⟨hash, hHash, -⟩ := Option.bind_eq_some_iff.mp hCommand
      obtain rfl := CurveSource.eq_of_checked?_eq hSource
      rw [run_sign_eq hLoad hSource hSigning hKey hNonce hMessage hHash] at hExit ⊢
      cases hAnswer : answerSign group k n message (hash.getD .sha256) with
      | error failure =>
          rw [hAnswer] at hExit
          have hFailed : (1 : UInt32) = 0 := hExit
          exact absurd hFailed (by decide)
      | ok answer =>
          have hSigned := signed_of_answerSign_eq_ok h (isNormal_of_readNumber?_eq hKey)
            (isNormal_of_readNumber?_eq hNonce)
            (fun _ => GivenMessage.isNormal_of_resolve_eq hMessage) hAnswer
          exact ⟨k, n, message, hash, answer, hSource, hKey, hMessage, hHash, hSigned, rfl⟩

/-- The texts of a signature and of coordinates are read again, so that the command for checking
them decides on the numbers and the point that they stand for. -/
theorem run_verify_of_signed (h : group.OverPrimeField)
    (hOrder : addOrderOf h.basePoint = group.order.modulus.toNat)
    (hLoad : source.load outside = ExceptT.mk (pure (.ok group))) {given : GivenMessage}
    {key nonce : BufferedInt} {message : MessageSource} {hash : Option HashAlgorithm}
    {answer : Answer} (hChecked : source.checked? = some source)
    (hMessage : given.source? = some message) (hHash : given.hash? = some hash)
    (hSigned : Signed h message (hash.getD .sha256) key nonce answer)
    {xs ys : List (FixedNat limbCount)} (hx : xs ≠ []) (hy : ys ≠ []) {q : JacobianPoint limbCount}
    (hPoint : group.ofAffine xs ys = .ok q) (hHolds : h.Holds q (key.toInt.toNat • h.basePoint)) :
    ∃ signature, answer.lines = signatureLines signature ∧
      signature.c.isNegative = false ∧ signature.d.isNegative = false ∧
      ∀ arguments, Supplies arguments (Command.checkingOptions source given (coordinateText xs)
          (coordinateText ys) signature.c.toHex signature.d.toHex) →
        (run outside ("verify" :: arguments)).run =
          if signature.d.toHex = "0" then
            { exitCode := 3, output := linesText ["invalid"], errors := "" }
          else { exitCode := 0, output := linesText ["valid"], errors := "" } := by
  obtain ⟨text, m, signature, hResolve, hCheck, hInRange, hNormalC, hNormalD, hSigns, hAnswer⟩ :=
    hSigned.exists_signature
  obtain ⟨c, hReadC, hSignC, hMagnitudeC⟩ := readNumber?_toHex hNormalC
  obtain ⟨d, hReadD, hSignD, hMagnitudeD⟩ := readNumber?_toHex hNormalD
  have hRead : h.Signs ⟨c, d⟩ m.toInt.toNat key.toInt.toNat nonce.toInt.toNat :=
    hSigns.of_eq ⟨hSignC, hMagnitudeC⟩ ⟨hSignD, hMagnitudeD⟩
  have hVerified := answerVerify_of_signed h hOrder hSigned.key_inRange hSigned.nonce_inRange
    hInRange hResolve hCheck hPoint hHolds hRead
  refine ⟨signature, by rw [hAnswer], hSigns.isNegative_c, hSigns.isNegative_d, ?_⟩
  intro arguments hChecking
  rw [run_verify_eq hLoad hChecked hChecking (readCoefficients?_coordinateText hx)
    (readCoefficients?_coordinateText hy) hReadC hReadD hMessage hHash, hVerified, hMagnitudeD]
  by_cases hZero : signature.d.magnitude = 0
  · rw [if_pos hZero, if_pos ((BufferedInt.toHex_eq_zero_iff hSigns.isNegative_d).mpr hZero)]
    rfl
  · rw [if_neg hZero, if_neg (mt (BufferedInt.toHex_eq_zero_iff hSigns.isNegative_d).mp hZero)]
    rfl

end Runs

/-- Whatever a command for signing and a command for the public key of the same key print on a curve
over a prime field with a base point of exact order can be given to a command for checking, in any
form and order of the options, and for every source of the message and every digest function. It
accepts the signature, unless its second component is zero, which it reports as invalid. -/
theorem verify_accepts_printed (outside : Surroundings Id) {source : CurveSource}
    {p : DomainParameters} (hSource : (source.parameters outside).run.run = .ok p)
    (hGroup : CurveGroup.ofParameters limbCount p = .ok group) (hExtension : p.extension = none)
    (hPrime : group.field.modulus.toNat.Prime)
    (hOrder : addOrderOf
      (CurveGroup.OverPrimeField.of_ofParameters hGroup hExtension hPrime).basePoint =
        group.order.modulus.toNat)
    {given : GivenMessage} {key nonce : String} {signing publishing : List String}
    (hSigning : Supplies signing (Command.signingOptions source given key nonce))
    (hPublishing : Supplies publishing (Command.publishingOptions source key))
    {c d x y : String}
    (hSigned : (run outside ("sign" :: signing)).run =
      { exitCode := 0, output := linesText ["c = " ++ c, "d = " ++ d], errors := "" })
    (hPublished : (run outside ("pubkey" :: publishing)).run =
      { exitCode := 0, output := linesText ["x = " ++ x, "y = " ++ y], errors := "" }) :
    (IsPlain x ∧ IsPlain y ∧ IsPlain c ∧ IsPlain d) ∧
    ∀ checking, Supplies checking (Command.checkingOptions source given x y c d) →
      (run outside ("verify" :: checking)).run =
        if d = "0" then { exitCode := 3, output := linesText ["invalid"], errors := "" }
        else { exitCode := 0, output := linesText ["valid"], errors := "" } := by
  let h := CurveGroup.OverPrimeField.of_ofParameters hGroup hExtension hPrime
  have hLoad : source.load outside = ExceptT.mk (pure (.ok group)) := load_eq hSource hGroup
  obtain ⟨k, n, message, hash, answer, hChecked, hKey, hMessage, hHash, hAnswer, hOutput⟩ :=
    signed_of_exitCode_eq_zero h hLoad hSigning (congrArg Report.exitCode hSigned)
  obtain ⟨xs, ys, q, hx, hy, hPoint, hHolds, hPublicKey⟩ :=
    exists_answerPublicKey h hOrder hAnswer.key_inRange
  obtain ⟨signature, hLines, hNonnegativeC, hNonnegativeD, hVerify⟩ := run_verify_of_signed h hOrder
    hLoad hChecked hMessage hHash hAnswer hx hy hPoint hHolds
  rw [run_pubkey_eq hLoad hChecked hPublishing hKey, hPublicKey] at hPublished
  rw [hSigned, hLines] at hOutput
  obtain ⟨rfl, rfl⟩ := eq_of_labelled_lines_eq (by decide) (by decide) (.toHex hNonnegativeC)
    (.toHex hNonnegativeD) hOutput.symm
  obtain ⟨rfl, rfl⟩ := eq_of_labelled_lines_eq (by decide) (by decide) (.coordinateText xs)
    (.coordinateText ys) (congrArg Report.output hPublished)
  exact ⟨⟨(IsPrinted.coordinateText xs).isPlain, (IsPrinted.coordinateText ys).isPlain,
    (IsPrinted.toHex hNonnegativeC).isPlain, (IsPrinted.toHex hNonnegativeD).isPlain⟩, hVerify⟩

/-- No file can be read, and nothing takes any time. -/
def bareSurroundings : Surroundings Id where
  contents _ := .error "not found"
  timed compute := (compute (), "")

/-- On P-256 the private key 5 signs the representative 3 with the nonce 1, so that the first
component is known without a multiplication. The options have other forms and another order in each
command. -/
theorem verify_accepts_printed_p256 :
    ∃ c d x y,
      (run bareSurroundings ["sign", "--key=5", "--nonce", "1", "--msg-hex=3"]).run =
        { exitCode := 0, output := linesText ["c = " ++ c, "d = " ++ d], errors := "" } ∧
      (run bareSurroundings ["pubkey", "--key", "5"]).run =
        { exitCode := 0, output := linesText ["x = " ++ x, "y = " ++ y], errors := "" } ∧
      (run bareSurroundings ["verify", "--msg-hex=3", "--pub-x", x, "--pub-y=" ++ y, "--c=" ++ c,
        "--d", d, "--"]).run =
          { exitCode := 0, output := linesText ["valid"], errors := "" } := by
  let h := isBuiltin_p256Group.overPrimeField
  let given : GivenMessage := ⟨.representative, "3", none⟩
  have hOrder : addOrderOf h.basePoint = p256Group.order.modulus.toNat :=
    isBuiltin_p256Group.addOrderOf_basePoint
  have hOrderNumber : p256Group.order.modulus.toNat = CurveNumbers.p256.order :=
    hasNumbers_p256Group.order_eq
  have hGroup : CurveGroup.ofParameters limbCount .p256 = .ok p256Group :=
    eq_ok_get_toOption isSome_p256Group
  have hLoad : CurveSource.standard.load bareSurroundings = ExceptT.mk (pure (.ok p256Group)) :=
    load_eq rfl hGroup
  have hScalar (w : UInt64) (hw : 0 < w.toNat ∧ w.toNat < 8) :
      0 < (BufferedInt.ofWord w).toInt ∧
        (BufferedInt.ofWord w).toInt < p256Group.order.modulus.toNat := by
    have hLarge : 8 < CurveNumbers.p256.order := by decide
    rw [BufferedInt.toInt_ofWord, hOrderNumber]
    omega
  have hFirst : h.firstComponent 3 (1 • h.basePoint) =
      (CurveNumbers.p256.x % CurveNumbers.p256.order + 3) % CurveNumbers.p256.order := by
    rw [one_nsmul, CurveGroup.OverPrimeField.firstComponent, hOrderNumber,
      hasNumbers_p256Group.xNumber_basePoint]
  have hNumber (w : UInt64) : (BufferedInt.ofWord w).toInt.toNat = w.toNat := by
    rw [BufferedInt.toInt_ofWord, Int.toNat_natCast]
  have hMessage := hScalar 3 (by decide)
  have hKey := hScalar 5 (by decide)
  have hNonce := hScalar 1 (by decide)
  obtain ⟨signature, hSigns, hSignature⟩ := exists_answerSign h hMessage hKey hNonce
    (h.nsmul_basePoint_ne_zero hOrder (by omega) (by omega))
    (by
      rw [hNumber, hNumber]
      exact hFirst.trans_ne (by decide)) .sha256
  obtain ⟨xs, ys, -, -, -, -, -, hPublicKey⟩ := exists_answerPublicKey h hOrder hKey
  have hValid : signature.d.toHex ≠ "0" := by
    rw [ne_eq, BufferedInt.toHex_eq_zero_iff hSigns.isNegative_d]
    intro hZero
    have hEquation := hSigns.equation
    rw [hZero, hSigns.magnitude_c, hNumber, hNumber, hNumber, hOrderNumber] at hEquation
    have hFalse := hFirst ▸ hEquation
    revert hFalse
    decide
  have hPlain {text : String} (h : IsPrinted text) : IsPlain text := h.isPlain
  have hSigning : Supplies ["--key=5", "--nonce", "1", "--msg-hex=3"]
      (Command.signingOptions .standard given "5" "1") :=
    ⟨_, .joined .key "5" (.separate .nonce (hPlain (by decide)) (.joined .representative "3" .nil)),
      .refl _⟩
  have hPublishing : Supplies ["--key", "5"] (Command.publishingOptions .standard "5") :=
    ⟨_, .separate .key (hPlain (by decide)) .nil, .refl _⟩
  have hReadKey : readNumber? "5" = some (.ofWord 5) := by decide +kernel
  have hReadNonce : readNumber? "1" = some (.ofWord 1) := by decide +kernel
  have hReadMessage : given.source? = some (.representative (.ofWord 3)) := by decide +kernel
  have hSigned := run_sign_eq hLoad rfl hSigning hReadKey hReadNonce hReadMessage rfl
  have hPublished := run_pubkey_eq hLoad rfl hPublishing hReadKey
  rw [Option.getD_none, hSignature] at hSigned
  rw [hPublicKey] at hPublished
  obtain ⟨⟨hx, -, -, hd⟩, hVerified⟩ := verify_accepts_printed bareSurroundings rfl hGroup rfl
    h.prime_modulus hOrder hSigning hPublishing hSigned hPublished
  have hChecking : Supplies ["--msg-hex=3", "--pub-x", coordinateText xs,
      "--pub-y=" ++ coordinateText ys, "--c=" ++ signature.c.toHex, "--d", signature.d.toHex, "--"]
      (Command.checkingOptions .standard given (coordinateText xs) (coordinateText ys)
        signature.c.toHex signature.d.toHex) :=
    ⟨_, .joined .representative "3" (.separate .publicX hx (.joined .publicY _ (.joined .c _
      (.separate .d hd .endMark)))), (List.perm_append_singleton _ _).symm⟩
  exact ⟨_, _, _, _, hSigned, hPublished, (hVerified _ hChecking).trans (if_neg hValid)⟩

end CommandLine

end NybergRueppel
