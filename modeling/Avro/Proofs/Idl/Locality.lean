import Avro.Idl.Compile
import Avro.Proofs.Idl.Repeats

/-!
# What readers depend on

Each reader gives the same value where its tokens stand at other places, before other tokens. Those
that may go on behind their last token need the next tokens to be alike.
-/

set_option autoImplicit false

namespace Avro.Idl

variable {last last' : Token} {tokens : List Token} {Ω : Type} {within : Ω → Prop}
  {stream : Ω → List Token} {place : Position} {entry : Text × Json}

theorem accept_local {test : Token → Bool} (problem : Text → Problem)
    (blind : ∀ {token other : Token}, token.Alike other → test token = test other) :
    Local Token.Alike (accept test problem) := by
  intro last tokens Ω within stream ahead last'
  refine ReadsAgain.ofCons (accept test problem last) (accept test problem last')
    fun token rest _ => ?_
  refine .ite (fun _ alike => by rw [blind alike]) (fun _ => ?_) fun _ => .error
  exact .takes rfl rfl fun _ alike => alike

theorem acceptMark_local (mark : Char) : Local Token.Alike (acceptMark mark) :=
  accept_local _ fun alike => alike.isMark mark

private theorem acceptKeyword_local (word : Text) : Local Token.Alike (acceptKeyword word) :=
  accept_local _ fun alike => alike.isKeyword word

theorem acceptIdentifier_local : Local Token.Alike acceptIdentifier :=
  accept_local _ fun alike => by rw [alike.kind]

theorem acceptString_local : Local Token.Alike acceptString :=
  accept_local _ fun alike => by rw [alike.kind]

theorem require_again {condition condition' fault fault' done} (same : condition = condition')
    (allowed : require condition fault = .ok done) : require condition' fault' = .ok done := by
  subst same
  unfold require at allowed ⊢
  split at allowed
  · rename_i holds
    rw [if_pos holds]
  · cases allowed

theorem passSeparator_passes (closing : Char) : LocalPass (passSeparator closing) last tokens := by
  intro Ω within stream last'
  refine PassesAgain.ofNext (passSeparator closing last) (passSeparator closing last') .error
    fun token rest _ => ?_
  refine .ite (fun _ alike => by rw [alike.isMark]) (fun _ => ?_) fun _ => ?_
  · exact .takes rfl rfl fun _ _ => rfl
  refine .ite (fun _ alike => by rw [alike.isMark]) (fun _ => ?_) fun _ => .error
  exact .pure rfl rfl fun _ _ => rfl

/-! ## Inline values -/

theorem congrArgs {α β γ : Type} (make : α → β → γ) {first first' : α} {second second' : β}
    (left : first = first') (right : second = second') : make first second = make first' second' :=
  left ▸ right ▸ rfl

mutual

theorem readJson_localAt (last : Token) (tokens : List Token) :
    LocalAt Eq readJson last tokens := by
  intro Ω within stream ahead last'
  refine ReadsAgain.ofCons (readJson last) (readJson last') fun token rest here => ?_
  simp only [readJson]
  refine .ite (fun _ alike => by rw [alike.kind]) (fun _ => ?_) fun _ => ?_
  · exact .takes rfl rfl fun _ alike => congrArg Json.str alike.text
  refine .ite (fun _ alike => by rw [alike.kind]) (fun _ => ?_) fun _ => ?_
  · refine .ite (fun _ alike => by rw [alike.text]) (fun _ => ?_) fun _ => .error
    exact .takes rfl rfl fun _ alike => congrArg Json.num alike.text
  refine .ite (fun _ alike => by rw [alike.isKeyword]) (fun _ => ?_) fun _ => ?_
  · exact .takes rfl rfl fun _ _ => rfl
  refine .ite (fun _ alike => by rw [alike.isKeyword]) (fun _ => ?_) fun _ => ?_
  · exact .takes rfl rfl fun _ _ => rfl
  refine .ite (fun _ alike => by rw [alike.isKeyword]) (fun _ => ?_) fun _ => ?_
  · exact .takes rfl rfl fun _ _ => rfl
  refine .ite (fun _ alike => by rw [alike.isMark]) (fun _ => ?_) fun _ => ?_
  · exact .behind (.map (readItems_localAt last rest) rfl rfl (fun _ _ _ _ => congrArg Json.arr))
  refine .ite (fun _ alike => by rw [alike.isMark]) (fun _ => ?_) fun _ => .error
  exact .behind (.map (readMembers_localAt last [] rest) rfl rfl (fun _ _ _ _ => congrArg Json.obj))
termination_by (tokens.length, 0)

theorem readItems_localAt (last : Token) (tokens : List Token) :
    LocalAt Eq readItems last tokens := by
  intro Ω within stream ahead last'
  refine ReadsAgain.ofCons (readItems last) (readItems last') fun token rest here => ?_
  simp only [readItems]
  refine .ite (fun _ alike => by rw [alike.isMark]) (fun _ => ?_) fun _ => ?_
  · exact .takes rfl rfl fun _ _ => rfl
  refine .bind (readJson_localAt last (token :: rest)) fun item => ?_
  refine .bind (passSeparator_passes ']') fun next => ?_
  refine .bindPass (readItems_localAt last next.rest) fun items => ?_
  exact .pure rfl rfl fun _ ⟨⟨⟨_, item⟩, _⟩, items⟩ => congrArgs List.cons item items
termination_by (tokens.length, 1)
decreasing_by
  · simp [here, Prod.lex_def]
  · exact Prod.Lex.left _ _ (here ▸ (item.andPass next).shorter)

theorem readMembers_localAt (last : Token) (before : Members) (tokens : List Token) :
    LocalAt Eq (fun last => readMembers last before) last tokens := by
  intro Ω within stream ahead last'
  refine ReadsAgain.ofCons (readMembers last before) (readMembers last' before)
    fun token rest here => ?_
  simp only [readMembers]
  refine .ite (fun _ alike => by rw [alike.isMark]) (fun _ => ?_) fun _ => ?_
  · exact .takes rfl rfl fun _ _ => rfl
  refine .bind acceptString_local fun key => ?_
  refine .bind (acceptMark_local ':') fun colon => ?_
  refine .bind (readJson_localAt last colon.rest) fun value => ?_
  refine .step (fun _ ⟨⟨⟨_, key⟩, _⟩, _⟩ _ => require_again (by rw [key.text])) fun _ => ?_
  refine .bind (passSeparator_passes '\x7d') fun next => ?_
  refine .bindPass (.congr (fun _ ⟨⟨⟨⟨_, key⟩, _⟩, value⟩, _⟩ => by rw [← key.text, ← value])
    (readMembers_localAt last _ next.rest)) fun members => ?_
  exact .pure rfl rfl fun _ ⟨_, members⟩ => members
termination_by (tokens.length, 1)
decreasing_by
  · exact Prod.Lex.left _ _ (here ▸ (key.andThen colon).shorter)
  · exact Prod.Lex.left _ _ (here ▸ (((key.andThen colon).andThen value).andPass next).shorter)

end

theorem readJson_local : Local Eq readJson := readJson_localAt _ _

theorem readAnnotationsAfter_passes (last : Token) (before : Members) (tokens : List Token) :
    LocalPass (fun last => readAnnotationsAfter last before) last tokens := by
  intro Ω within stream last'
  refine PassesAgain.ofNext (readAnnotationsAfter last before)
    (readAnnotationsAfter last' before) ?_ fun token rest here => ?_
  · simp only [readAnnotationsAfter]
    exact .pure rfl rfl fun _ _ => rfl
  simp only [readAnnotationsAfter]
  refine .ite (fun _ alike => by rw [alike.isMark]) (fun _ => ?_) fun _ => ?_
  · refine .forget (.behind (.bind acceptIdentifier_local fun name => ?_))
    refine .bind (acceptMark_local '(') fun opening => ?_
    refine .bind readJson_local fun value => ?_
    refine .bindPass (acceptMark_local ')') fun closing => ?_
    refine .step (fun _ ⟨⟨⟨⟨_, name⟩, _⟩, _⟩, _⟩ _ => require_again (by rw [name.text])) fun _ => ?_
    refine .bindPass (.congr (fun _ ⟨⟨⟨⟨_, name⟩, _⟩, value⟩, _⟩ => by rw [← name.text, ← value])
      (readAnnotationsAfter_passes last _ closing.rest)) fun all => ?_
    exact .pure rfl rfl fun _ ⟨_, all⟩ => all
  · exact .pure rfl rfl fun _ _ => rfl
termination_by tokens.length
decreasing_by exact here ▸ (((name.andThen opening).andThen value).andThen closing).later.shorter

theorem readAnnotations_passes :
    LocalPass readAnnotations last tokens := readAnnotationsAfter_passes last [] tokens

theorem readInteger_local : Local Eq readInteger := by
  refine .bindPass (accept_local _ fun alike => by rw [alike.kind]) fun token => ?_
  split
  · rename_i number read
    refine .congr (fun _ ⟨_, alike⟩ => by rw [← alike.text, read]) ?_
    exact .pure rfl rfl fun _ _ => rfl
  · exact .error

/-! ## Types -/

theorem ne_nil_of_nextIsMark {mark : Char} (next : nextIsMark mark tokens = true) :
    tokens ≠ [] := by
  rintro rfl
  cases next

private theorem readDecimal_local : Local Eq readDecimal := by
  refine .bind (acceptMark_local '(') fun opening => ?_
  refine .bind readInteger_local fun precision => .seeing ?_
  refine .ite (fun _ ⟨_, next, _⟩ => by rw [next.mark]) (fun comma => ?_) fun _ => ?_
  · refine .skip (ne_nil_of_nextIsMark comma) (.bind readInteger_local fun scale => ?_)
    refine .bindPass (acceptMark_local ')') fun closing => ?_
    exact .pure rfl rfl fun _ ⟨⟨⟨⟨_, precision⟩, _⟩, scale⟩, _⟩ => congrArgs decimal precision scale
  · refine .bindPass (acceptMark_local ')') fun closing => ?_
    exact .pure rfl rfl fun _ ⟨⟨⟨_, precision⟩, _⟩, _⟩ => congrArg (decimal · 0) precision

private theorem wordType_again {site} {token other : Token} {schema} (alike : token.Alike other)
    (read : wordType site token = .ok schema) : wordType site other = .ok schema := by
  unfold wordType at read ⊢
  rw [alike.text, alike.quoted] at read
  dsimp only at read ⊢
  split at read
  · exact read
  · split at read
    · exact read
    · split at read
      · exact read
      · cases read

private theorem passOptional_passes (schema : Schema) :
    PassesAgain within stream tokens (passOptional schema tokens)
      fun world => passOptional schema (stream world) := by
  refine PassesAgain.ofNext (passOptional schema) (passOptional schema) ?_ fun token rest _ => ?_
  · exact .pure rfl rfl fun _ _ => rfl
  refine .ite (fun _ alike => by rw [alike.isMark]) (fun _ => ?_) fun _ => ?_
  · split
    · exact .takes rfl rfl fun _ _ => rfl
    · cases Schema.makeUnion [.plain .null, schema] with
      | error error => exact .error
      | ok => exact .takes rfl rfl fun _ _ => rfl
  · exact .pure rfl rfl fun _ _ => rfl

mutual

theorem readType_localAt (site : Site) (last : Token) (tokens : List Token) :
    LocalBeforeAt (readType site) last tokens := by
  intro Ω within stream last'
  simp only [readType]
  refine .bindPass (readBaseType_localAt site last tokens) fun base => ?_
  refine .bindPass (.congr (fun _ ⟨_, base⟩ => by rw [← base]) (passOptional_passes base.value))
    fun whole => ?_
  exact .pure rfl rfl fun _ ⟨_, whole⟩ => whole
termination_by (tokens.length, 1)

private theorem readBaseType_localAt (site : Site) (last : Token) (tokens : List Token) :
    LocalAt Eq (readBaseType site) last tokens := by
  intro Ω within stream ahead last'
  refine ReadsAgain.ofCons (readBaseType site last) (readBaseType site last')
    fun token rest here => ?_
  simp only [readBaseType]
  refine .ite (fun _ alike => by rw [alike.kind]) (fun _ => .error) fun _ => ?_
  refine .ite (fun _ alike => by rw [alike.isKeyword, alike.isKeyword]) (fun _ => ?_) fun _ => ?_
  · refine .behind (.bind (acceptMark_local '<') fun opening => ?_)
    refine .bind (readType_localAt site last opening.rest) fun inner => ?_
    refine .bindPass (acceptMark_local '>') fun closing => ?_
    refine .pure rfl rfl fun _ ⟨⟨⟨alike, _⟩, inner⟩, _⟩ => ?_
    rw [alike.text, inner]
    rfl
  refine .ite (fun _ alike => by rw [alike.isKeyword]) (fun _ => ?_) fun _ => ?_
  · refine .behind (.bind (acceptMark_local '\x7b') fun opening => ?_)
    refine .bind (readBranches_localAt site last opening.rest) fun branches => ?_
    refine .bindPass (acceptMark_local '\x7d') fun closing => ?_
    split
    · exact .error
    · rename_i union made
      refine .congr (fun _ ⟨⟨_, branches⟩, _⟩ => by rw [← branches, made]) ?_
      exact .pure rfl rfl fun _ _ => rfl
  refine .ite (fun _ alike => by rw [alike.isKeyword]) (fun _ => ?_) fun _ => ?_
  · exact .behind (.map readDecimal_local rfl rfl (fun _ _ _ _ => id))
  cases found : wordType site token with
  | error => exact .error
  | ok =>
    refine .congr (fun _ alike => by rw [wordType_again alike found]) ?_
    exact .takes rfl rfl fun _ _ => rfl
termination_by (tokens.length, 0)
decreasing_by
  · exact Prod.Lex.left _ _ (here ▸ opening.later.shorter)
  · exact Prod.Lex.left _ _ (here ▸ opening.later.shorter)

theorem readBranches_localAt (site : Site) (last : Token) (tokens : List Token) :
    LocalBeforeAt (readBranches site) last tokens := by
  intro Ω within stream last'
  refine .congr (fun _ _ => readBranches.eq_def ..) ?_
  rw [readBranches]
  refine .bindPass (readType_localAt site last tokens) fun branch => .seeingNext ?_
  refine .ite (fun _ ⟨_, next⟩ => by rw [next.mark]) (fun comma => ?_) fun _ => ?_
  · refine .forget (.skip (ne_nil_of_nextIsMark comma)
      (.bindPass (readBranches_localAt site last branch.skip.rest) fun branches => ?_))
    exact .pure rfl rfl fun _ ⟨⟨⟨_, branch⟩, _⟩, branches⟩ => congrArgs List.cons branch branches
  · exact .pure rfl rfl fun _ ⟨⟨_, branch⟩, _⟩ => congrArg ([·]) branch
termination_by (tokens.length, 2)
decreasing_by
  · simp [Prod.lex_def]
  · exact Prod.Lex.left _ _ branch.skip.shorter

end

theorem readType_local (site : Site) : LocalBefore (readType site) := readType_localAt site _ _

/-! ## Fields and parameters -/

private theorem passDefault_passes : LocalPass passDefault last tokens := by
  intro Ω within stream last'
  refine PassesAgain.ofNext (passDefault last) (passDefault last') ?_ fun token rest _ => ?_
  · exact .pure rfl rfl fun _ _ => rfl
  refine .ite (fun _ alike => by rw [alike.isMark]) (fun _ => ?_) fun _ => ?_
  · exact .forget (.behind (.map readJson_local rfl rfl (fun _ _ _ _ => congrArg some)))
  · exact .pure rfl rfl fun _ _ => rfl

theorem foldlM_indifferent {α β : Type} (step : Position → α → β → Except Fault α) (blind : ∀
      {place state entry after}, step place state entry = .ok after → ∀ place', step place' state
      entry = .ok after) {entries : List β} {state after : α}
    (folded : entries.foldlM (step place) state = .ok after) (place' : Position) :
    entries.foldlM (step place') state = .ok after := by
  induction entries generalizing state with
  | nil => exact folded
  | cons _ _ ih =>
    obtain ⟨_, stepped, folded⟩ := bind_ok.mp folded
    exact bind_ok.mpr ⟨_, blind stepped place', ih folded⟩

private theorem annotateField_indifferent {field after : Field}
    (annotated : annotateField place field entry = .ok after) (place' : Position) :
    annotateField place' field entry = .ok after := by
  unfold annotateField at annotated ⊢
  dsimp only at annotated ⊢
  split at annotated
  · rename_i isOrder
    rw [if_pos isOrder]
    split at annotated
    · exact annotated
    · cases annotated
  · rename_i noOrder
    rw [if_neg noOrder]
    split at annotated
    · rename_i isAliases
      rw [if_pos isAliases]
      split at annotated
      · exact annotated
      · cases annotated
    · rename_i noAliases
      rw [if_neg noAliases]
      exact annotated

theorem readVariable_local (type : Schema) (doc : Text) (inherited : Members) :
    LocalBefore (readVariable type doc inherited) := by
  refine .bind readAnnotations_passes fun annotations => ?_
  refine .bindPass acceptIdentifier_local fun name => ?_
  refine .step (fun _ ⟨_, name⟩ _ => require_again (by rw [name.text])) fun _ => ?_
  refine .step (fun _ ⟨⟨_, annotations⟩, name⟩ _ folded => ?_) fun field => ?_
  · rw [← annotations, ← name.text]
    exact foldlM_indifferent annotateField annotateField_indifferent folded _
  refine .bindPass passDefault_passes fun default => ?_
  exact .pure rfl rfl fun _ ⟨_, default⟩ => congrArg (fun default => { field with default }) default

theorem readVariables_localAt (type : Schema) (doc : Text) (inherited : Members) (last : Token)
    (tokens : List Token) : LocalBeforeAt (readVariables type doc inherited) last tokens := by
  refine .congr (fun _ _ => readVariables.eq_def ..) ?_
  rw [readVariables]
  refine .bindPass (readVariable_local type doc inherited) fun field => .seeingNext ?_
  refine .ite (fun _ ⟨_, next⟩ => by rw [next.mark]) (fun comma => ?_) fun _ => ?_
  · refine .forget (.skip (ne_nil_of_nextIsMark comma) (.bindPass
      (readVariables_localAt type doc inherited last field.skip.rest) fun fields => ?_))
    exact .pure rfl rfl fun _ ⟨⟨⟨_, field⟩, _⟩, fields⟩ => congrArgs List.cons field fields
  · exact .pure rfl rfl fun _ ⟨⟨_, field⟩, _⟩ => congrArg ([·]) field
termination_by tokens.length
decreasing_by exact field.skip.shorter

private theorem readFieldLine_local (site : Site) : Local Eq (readFieldLine site) := by
  intro last tokens Ω within stream ahead last'
  refine .seeing (.bind readAnnotations_passes fun annotations => .seeing ?_)
  refine .bind (readType_local site) fun type => ?_
  refine .bind (.congr (fun _ ⟨⟨⟨⟨_, first, stands⟩, annotations⟩, next, present⟩, type⟩ => by
      rw [← (first.peek stands last last').doc, ← (next.peek present last last').doc,
        ← annotations, ← type])
    (readVariables_localAt _ _ _ last type.rest)) fun fields => ?_
  refine .bindPass (acceptMark_local ';') fun closing => ?_
  exact .pure rfl rfl fun _ ⟨⟨_, fields⟩, _⟩ => fields

theorem readRecordFields_localAt (site : Site) (name : Token) (owner : Text) (last : Token)
    (before : List Field) (tokens : List Token) (name' : Token) {Ω : Type} {within : Ω → Prop}
    {stream : Ω → List Token} {ahead : Ahead} {last' : Token} :
    ReadsAgain Eq within stream ahead tokens (readRecordFields site name owner last before tokens)
      fun world => readRecordFields site name' owner last' before (stream world) := by
  refine ReadsAgain.ofCons (readRecordFields site name owner last before)
    (readRecordFields site name' owner last' before) fun token rest here => ?_
  simp only [readRecordFields]
  refine .ite (fun _ alike => by rw [alike.isMark]) (fun _ => ?_) fun _ => ?_
  · exact .takes rfl rfl fun _ _ => rfl
  refine .bind (readFieldLine_local site) fun line => ?_
  split
  · exact .error
  · rename_i distinct
    refine .congr (fun _ known => by rw [← known.2, distinct]) ?_
    refine .bindPass (readRecordFields_localAt site name owner last _ line.rest name')
      fun fields => ?_
    exact .pure rfl rfl fun _ known => known.2
termination_by tokens.length
decreasing_by exact here ▸ line.shorter

theorem readRecordFields_local (site : Site) (name : Token) (owner : Text) (before : List Field)
    {ahead : Ahead} {name' : Ω → Token} :
    ReadsAgain Eq within stream ahead tokens (readRecordFields site name owner last before tokens)
      fun world => readRecordFields site (name' world) owner last' before (stream world) :=
  ⟨fun result _ => result.suffix, fun _ result _ => result.shorter, fun result done world =>
    (readRecordFields_localAt site name owner last before tokens (name' world)).again result done
      world⟩

private theorem readParameter_local (site : Site) : LocalBefore (readParameter site) := by
  intro last tokens Ω within stream last'
  refine .seeing (.bind readAnnotations_passes fun annotations => ?_)
  refine .bind (readType_local site) fun type => ?_
  refine .bindPass (.congr (fun _ ⟨⟨⟨_, first, stands⟩, annotations⟩, type⟩ => by
      rw [← (first.peek stands last last').doc, ← annotations, ← type])
    (readVariable_local _ _ _)) fun field => ?_
  exact .pure rfl rfl fun _ ⟨_, field⟩ => field

theorem readParameters_localAt (site : Site) (last : Token) (tokens : List Token) :
    LocalAt Eq (readParameters site) last tokens := by
  intro Ω within stream ahead last'
  refine ReadsAgain.ofCons (readParameters site last) (readParameters site last')
    fun token rest here => ?_
  simp only [readParameters]
  refine .ite (fun _ alike => by rw [alike.isMark]) (fun _ => ?_) fun _ => ?_
  · exact .takes rfl rfl fun _ _ => rfl
  refine .bind (readParameter_local site) fun field => ?_
  refine .bind (passSeparator_passes ')') fun next => ?_
  refine .bindPass (readParameters_localAt site last next.rest) fun fields => ?_
  exact .pure rfl rfl fun _ known => congrArgs List.cons known.1.1.2 known.2
termination_by tokens.length
decreasing_by exact here ▸ (field.andPass next).shorter

/-! ## Declarations -/

private theorem annotateNamed_indifferent {heading after : Heading}
    (annotated : annotateNamed place heading entry = .ok after) (place' : Position) :
    annotateNamed place' heading entry = .ok after := by
  unfold annotateNamed at annotated ⊢
  dsimp only at annotated ⊢
  split at annotated
  · rename_i isSpace
    rw [if_pos isSpace]
    split at annotated
    · exact annotated
    · cases annotated
  · rename_i noSpace
    rw [if_neg noSpace]
    split at annotated
    · rename_i isAliases
      rw [if_pos isAliases]
      split at annotated
      · exact annotated
      · cases annotated
    · rename_i noAliases
      rw [if_neg noAliases]
      exact annotated

theorem definitionOf_alike {space doc annotations} {name name' : Token} {body definition}
    (alike : name.Alike name')
    (made : definitionOf space doc annotations name body = .ok definition) :
    definitionOf space doc annotations name' body = .ok definition := by
  obtain ⟨heading, folded, made⟩ := bind_ok.mp made
  rw [alike.text] at made
  exact bind_ok.mpr
    ⟨heading, foldlM_indifferent annotateNamed annotateNamed_indifferent folded _, made⟩

theorem defineAt_indifferent {scope definition name result}
    (defined : defineAt scope definition name = .ok result) (name' : Token) :
    defineAt scope definition name' = .ok result := by
  unfold defineAt at defined ⊢
  split at defined
  · cases defined
  · rename_i legal
    rw [if_neg legal]
    split at defined
    · exact defined
    · cases defined


private theorem readRecord_local (front : Front) (isError : Bool) :
    Local Eq (readRecord front isError) := by
  refine .bind acceptIdentifier_local fun name => ?_
  refine .step (fun _ ⟨_, name⟩ _ => definitionOf_alike name) fun definition => ?_
  refine .step (fun _ _ _ defined => defineAt_indifferent defined _) fun ⟨reference, scope⟩ => ?_
  refine .bind (acceptMark_local '\x7b') fun opening => ?_
  refine .bindPass (readRecordFields_local _ name.value _ []) fun fields => ?_
  exact .pure rfl rfl fun _ ⟨_, fields⟩ => congrArg (fun fields => scope.install reference
    (.record isError fields)) fields

theorem readSymbols_localAt (last : Token) (before : List Text) (tokens : List Token) :
    LocalAt Eq (fun last => readSymbols last before) last tokens := by
  intro Ω within stream ahead last'
  refine ReadsAgain.ofCons (readSymbols last before) (readSymbols last' before)
    fun token rest here => ?_
  simp only [readSymbols]
  refine .ite (fun _ alike => by rw [alike.isMark]) (fun _ => ?_) fun _ => ?_
  · exact .takes rfl rfl fun _ _ => rfl
  refine .bind acceptIdentifier_local fun symbol => ?_
  refine .step (fun _ known _ => require_again (by rw [known.2.text])) fun _ => ?_
  refine .bind (passSeparator_passes '\x7d') fun next => ?_
  refine .bindPass (.congr (fun _ known => by rw [← known.1.2.text])
    (readSymbols_localAt last _ next.rest)) fun symbols => ?_
  exact .pure rfl rfl fun _ known => known.2
termination_by tokens.length
decreasing_by exact here ▸ (symbol.andPass next).shorter

private theorem passEnumDefault_local (owner : Text) (symbols : List Text) :
    Repeats Passed.rest (fun _ => Passed.rest)
      (fun result _ result' => result.value = result'.value) within stream (.noMark '=') false
      tokens (passEnumDefault owner symbols last tokens)
      fun world => passEnumDefault owner symbols last' (stream world) := by
  have sets (token : Token) (rest : List Token) (isSet : token.isMark '=' = true) :
      Repeats Passed.rest (fun _ => Passed.rest)
        (fun result _ result' => result.value = result'.value) (Beside token)
        (fun place => place.1 :: place.2) (.noMark '=') true (token :: rest)
        (passEnumDefault owner symbols last (token :: rest))
        fun place => passEnumDefault owner symbols last' (place.1 :: place.2) := by
    refine .ite (fun _ alike => by rw [alike.isMark]) (fun _ => ?_)
      fun notSet => absurd isSet notSet
    refine .behind (.bind acceptIdentifier_local fun symbol => ?_)
    refine .step (fun _ ⟨_, symbol⟩ _ => require_again (by rw [symbol.text])) fun _ => ?_
    refine .bindPass (acceptMark_local ';') fun closing => ?_
    exact .pure rfl rfl fun _ ⟨⟨_, symbol⟩, _⟩ => congrArg some symbol.text
  have stays (last : Token) {tokens : List Token} (noSign : ¬nextIsMark '=' tokens = true) :
      passEnumDefault owner symbols last tokens = .ok (.stay none) := by
    cases tokens with
    | nil => rfl
    | cons => exact if_neg noSign
  refine ⟨fun result _ => result.suffix, nofun, ?_⟩
  intro result done world _ left same known
  by_cases sign : nextIsMark '=' tokens = true
  · cases tokens with
    | nil => cases sign
    | cons token rest =>
      have run := sets token rest sign
      obtain ⟨other, later, there, alike, _⟩ := same.uncons (run.shorter rfl _ done)
      rw [there] at same ⊢
      exact run.again result done (other, later) alike left same known
  · rw [stays last sign] at done
    cases done
    rw [same.done]
    exact ⟨_, stays last' fun there => sign (known there), rfl, rfl⟩

private theorem readEnum_local (front : Front) :
    ReadsAgain Eq within stream (.noMark '=') tokens (readEnum front last tokens)
      fun world => readEnum front last' (stream world) := by
  refine .bind acceptIdentifier_local fun name => ?_
  refine .step (fun _ ⟨_, name⟩ _ => definitionOf_alike name) fun definition => ?_
  refine .bind (acceptMark_local '\x7b') fun opening => ?_
  refine .bindPass (readSymbols_localAt last [] opening.rest) fun symbols => ?_
  refine .bindPass (.congr (fun _ ⟨⟨⟨_, name⟩, _⟩, symbols⟩ => by rw [← name.text, ← symbols])
    (passEnumDefault_local name.value.text symbols.value)) fun default => ?_
  refine .step (fun _ ⟨⟨_, symbols⟩, default⟩ _ defined => ?_) fun defined => ?_
  · rw [← symbols, ← default]
    exact defineAt_indifferent defined _
  exact .pure rfl rfl fun _ _ => rfl

private theorem readFixed_local (front : Front) : Local Eq (readFixed front) := by
  refine .bind acceptIdentifier_local fun name => ?_
  refine .step (fun _ ⟨_, name⟩ _ => definitionOf_alike name) fun definition => ?_
  refine .bind (acceptMark_local '(') fun opening => ?_
  refine .bind readInteger_local fun size => ?_
  refine .bind (acceptMark_local ')') fun closing => ?_
  refine .bindPass (acceptMark_local ';') fun semicolon => ?_
  refine .step (fun _ ⟨⟨⟨_, size⟩, _⟩, _⟩ _ defined => ?_) fun defined => ?_
  · rw [← size]
    exact defineAt_indifferent defined _
  exact .pure rfl rfl fun _ _ => rfl

private theorem readResponse_local (site : Site) : LocalBefore (readResponse site) := by
  intro last tokens Ω within stream last'
  refine ReadsAgain.ofCons (readResponse site last) (readResponse site last') fun token rest _ => ?_
  refine .ite (fun _ alike => by rw [alike.isKeyword]) (fun _ => ?_) fun _ => readType_local site
  exact .takes rfl rfl fun _ _ => rfl

theorem readThrows_localAt (site : Site) (last : Token) (tokens : List Token) :
    LocalBeforeAt (readThrows site) last tokens := by
  refine .congr (fun _ _ => readThrows.eq_def ..) ?_
  rw [readThrows]
  refine .bindPass acceptIdentifier_local fun name => ?_
  split
  · exact .error
  rename_i schema resolved
  refine .congr (fun _ known => by rw [← known.2.text, resolved]) ?_
  refine .ite (fun _ _ => Iff.rfl) (fun _ => .error) fun _ => .seeingNext ?_
  refine .ite (fun _ known => by rw [known.2.mark]) (fun comma => ?_) fun _ => ?_
  · refine .forget (.skip (ne_nil_of_nextIsMark comma)
      (.bindPass (readThrows_localAt site last name.skip.rest) fun errors => ?_))
    exact .pure rfl rfl fun _ known => congrArg (schema :: ·) known.2
  · exact .pure rfl rfl fun _ _ => rfl
termination_by tokens.length
decreasing_by exact name.skip.shorter

private theorem passEnding_passes (site : Site) (name : Text) (response : Schema) :
    LocalPass (passEnding site name response) last tokens := by
  intro Ω within stream last'
  refine PassesAgain.ofNext (passEnding site name response last)
    (passEnding site name response last') ?_ fun token rest _ => ?_
  · exact .pure rfl rfl fun _ _ => rfl
  refine .ite (fun _ alike => by rw [alike.isKeyword]) (fun _ => ?_) fun _ => ?_
  · refine .ite (fun _ _ => Iff.rfl) (fun _ => ?_) fun _ => .error
    exact .takes rfl rfl fun _ _ => rfl
  refine .ite (fun _ alike => by rw [alike.isKeyword]) (fun _ => ?_) fun _ => ?_
  · exact .forget (.behind (.map (readThrows_localAt site last rest) rfl rfl
      (fun _ _ _ _ => congrArg (Ending.mk false))))
  · exact .pure rfl rfl fun _ _ => rfl

private theorem readMessage_local (front : Front) (messages : List Message) :
    Local Eq (readMessage front messages) := by
  intro last tokens Ω within stream ahead last'
  refine .bind (readResponse_local _) fun response => ?_
  refine .bind acceptIdentifier_local fun name => ?_
  refine .step (fun _ ⟨_, name⟩ _ => require_again (by rw [name.text])) fun _ => ?_
  refine .step (fun _ ⟨_, name⟩ _ => require_again (by rw [name.text])) fun _ => ?_
  refine .bind (acceptMark_local '(') fun opening => ?_
  refine .bind (readParameters_localAt _ last opening.rest) fun request => ?_
  refine .bind (.congr (fun _ ⟨⟨⟨⟨_, response⟩, name⟩, _⟩, _⟩ => by rw [← name.text, ← response])
    (passEnding_passes _ name.value.text response.value)) fun ending => ?_
  refine .bindPass (acceptMark_local ';') fun closing => ?_
  refine .pure rfl rfl ?_
  rintro _ ⟨⟨⟨⟨⟨⟨_, response⟩, name⟩, _⟩, request⟩, ending⟩, _⟩
  simp only [Consumed.give, name.text, response, request, ending]

theorem readImport_local : Local Eq readImport := by
  refine .bind acceptIdentifier_local fun word => ?_
  split
  · exact .error
  rename_i kind known
  refine .congr (fun _ ⟨_, word⟩ => by rw [← word.text, known]) ?_
  refine .bind acceptString_local fun reference => ?_
  refine .bindPass (acceptMark_local ';') fun closing => ?_
  exact .pure rfl rfl fun _ ⟨⟨_, reference⟩, _⟩ => congrArg (kind, ·) reference.text

private theorem annotateProtocol_indifferent {head after : ProtocolHead}
    (annotated : annotateProtocol place head entry = .ok after) (place' : Position) :
    annotateProtocol place' head entry = .ok after := by
  unfold annotateProtocol at annotated ⊢
  dsimp only at annotated ⊢
  split at annotated
  · rename_i isSpace
    rw [if_pos isSpace]
    split at annotated
    · exact annotated
    · cases annotated
  · rename_i noSpace
    rw [if_neg noSpace]
    exact annotated


theorem readHead_local : Local Eq readHead := by
  intro last tokens Ω within stream ahead last'
  refine .seeing (.bind readAnnotations_passes fun annotations => ?_)
  refine .bind (acceptKeyword_local _) fun keyword => ?_
  refine .bind acceptIdentifier_local fun name => ?_
  refine .step (fun _ ⟨_, name⟩ _ => require_again (by rw [name.text])) fun _ => ?_
  refine .step (fun _ ⟨⟨⟨⟨_, first, stands⟩, annotations⟩, keyword⟩, name⟩ _ folded => ?_)
    fun head => ?_
  · rw [← (first.peek stands last last').doc, ← annotations, ← keyword.doc, ← name.text]
    exact foldlM_indifferent annotateProtocol annotateProtocol_indifferent folded _
  refine .bindPass (acceptMark_local '\x7b') fun opening => ?_
  exact .pure rfl rfl fun _ _ => rfl

private theorem readDeclaration_local (space : Text) (draft : Draft) :
    ReadsAgain Eq within stream (.noMark '=') tokens (readDeclaration space draft last tokens)
      fun world => readDeclaration space draft last' (stream world) := by
  refine .seeing (.bind readAnnotations_passes fun annotations => .seeing ?_)
  dsimp only
  cases stands : annotations.rest.head? with
  | none => exact .error
  | some token =>
    refine .congr (fun _ ⟨⟨⟨_, first, isFirst⟩, annotations⟩, next, present⟩ => by
      rw [next.head? present last', ← (first.peek isFirst last last').doc,
        ← (next.peek present last last').doc, ← annotations]) ?_
    have present : annotations.rest ≠ [] := by
      intro empty
      rw [empty] at stands
      cases stands
    have alike {others : List Token} (next : Ahead.SameNext annotations.rest others) :
        token.Alike (peek last' others) := next.word stands last'
    refine .ite (fun _ ⟨_, next, _⟩ => by rw [(alike next).isKeyword, (alike next).isKeyword])
      (fun _ => ?_) fun _ => ?_
    · refine .skip present (.map (.congr (fun _ ⟨_, next, _⟩ => by rw [← (alike next).text])
        (readRecord_local _ _)) rfl rfl (fun _ _ _ _ scope => ?_))
      exact congrArg (fun scope => { draft with session := { draft.session with scope } }) scope
    refine .ite (fun _ ⟨_, next, _⟩ => by rw [(alike next).isKeyword]) (fun _ => ?_) fun _ => ?_
    · refine .skip present (.map (readEnum_local _) rfl rfl (fun _ _ _ _ scope => ?_))
      exact congrArg (fun scope => { draft with session := { draft.session with scope } }) scope
    refine .ite (fun _ ⟨_, next, _⟩ => by rw [(alike next).isKeyword]) (fun _ => ?_) fun _ => ?_
    · refine .skip present (.map (readFixed_local _) rfl rfl (fun _ _ _ _ scope => ?_))
      exact congrArg (fun scope => { draft with session := { draft.session with scope } }) scope
    refine .ite (fun _ ⟨_, next, _⟩ => by rw [(alike next).kind]) (fun _ => ?_) fun _ => .error
    refine .map (readMessage_local _ _) rfl rfl (fun _ _ _ _ message => ?_)
    exact congrArg (fun message => { draft with messages := draft.messages ++ [message] }) message

theorem readDeclaration_again {space draft result}
    (read : readDeclaration space draft last tokens = .ok result) {others left}
    (same : Same tokens result.rest others left) (after : (Ahead.noMark '=').holds result.rest left)
    (last' : Token) :
    ∃ again, readDeclaration space draft last' others = .ok again ∧ again.value = result.value ∧
      again.rest = left := by
  have run : ReadsAgain Eq (fun _ : Unit => True) (fun _ => others) (.noMark '=') tokens
      (readDeclaration space draft last tokens) fun _ => readDeclaration space draft last' others :=
    readDeclaration_local space draft
  obtain ⟨again, read, agree, ends⟩ := run.again result read () trivial left same after
  exact ⟨again, read, agree.symm, ends⟩

end Avro.Idl
