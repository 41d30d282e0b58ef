import Avro.Proofs.Idl.Readers

/-!
# Imports of a source

Each clean path is noted before the document there is parsed, so that no path is parsed twice. As
long as the depth exceeds the number of paths that can still be found, it does not matter.
-/

set_option autoImplicit false

open List

namespace Avro.Idl

open Avro.Path

variable {path reference : Text} {draft : Draft} {paths known : List Text} {kind : ImportKind}
  {tokens : List Token}

inductive Event where
  | asked (kind : ImportKind) (reference origin : Text)
  | parsed (path : Text)
deriving DecidableEq, Repr

def parsedPaths (log : List Event) : List Text :=
  log.filterMap fun
    | .parsed path => some path
    | .asked .. => none

section Log

variable {Failure : Type}

def followLog (importer : Importer Failure) (readLog : Session → Text → Text → List Event)
    (path : Text) (draft : Draft) (kind : ImportKind) (reference : Text) : List Event :=
  .asked kind reference path ::
    match importer.fetch kind reference path with
    | .error _ => []
    | .ok document =>
      let key := clean document.path
      if key ∈ draft.session.imported then []
      else
        let session := { draft.session with imported := key :: draft.session.imported }
        .parsed key :: if kind = .idl then readLog session document.path document.content else []

/-- What the imports of a source leave behind, one after another. -/
def declarationsLog {α : Type}
    (followImport : Draft → ImportKind → Text → Except (Error Failure) Draft)
    (log : Draft → ImportKind → Text → List α) (protocolSpace : Text) (last : Token)
    (draft : Draft) (tokens : List Token) : List α :=
  match tokens with
  | [] => []
  | token :: rest =>
    if token.isMark '\x7d' then []
    else if token.isKeyword "import" then
      match readImport last rest with
      | .error _ => []
      | .ok statement =>
        log draft statement.value.1 statement.value.2 ++
          match followImport draft statement.value.1 statement.value.2 with
          | .error _ => []
          | .ok draft => declarationsLog followImport log protocolSpace last draft statement.rest
    else
      match readDeclaration protocolSpace draft last (token :: rest) with
      | .error _ => []
      | .ok declared =>
        declarationsLog followImport log protocolSpace last declared.value declared.rest
termination_by tokens.length
decreasing_by
  · exact statement.later.shorter
  · exact declared.shorter

def sourceLog (importer : Importer Failure) : Nat → Session → Text → Text → List Event
  | 0, _, _, _ => []
  | depth + 1, session, path, source =>
    match lex source with
    | .error _ => []
    | .ok (tokens, last) =>
      match readHead last tokens with
      | .error _ => []
      | .ok head =>
        declarationsLog (follow (some importer) (readSource (some importer) depth) path)
          (followLog importer (sourceLog importer depth) path) head.value.name.space last
          ⟨session, []⟩ head.rest

/-- What happens while a source is compiled, which is parsed itself. -/
def compileLog (importer : Importer Failure) (path source : Text) : List Event :=
  .parsed (clean path) ::
    sourceLog importer (1 + importer.limit) ⟨.start [] [], [clean path]⟩ path source

end Log

/-! ## No document is parsed twice -/

/-- The documents parsed along a log differ from each other and from those known before. -/
structure Fresh (known : List Text) (log : List Event) : Prop where
  distinct : (parsedPaths log).Nodup
  new : ∀ path ∈ parsedPaths log, path ∉ known

theorem parsedPaths_append (first second : List Event) :
    parsedPaths (first ++ second) = parsedPaths first ++ parsedPaths second :=
  filterMap_append

section Fresh

variable {known : List Text} {first second log : List Event} {path : Text}

theorem Fresh.nil : Fresh known [] := ⟨nodup_nil, forall_mem_nil _⟩

theorem Fresh.asked {origin : Text} (fresh : Fresh known log) :
    Fresh known (.asked kind reference origin :: log) :=
  ⟨fresh.distinct, fresh.new⟩

theorem Fresh.parsed (absent : path ∉ known) (fresh : Fresh (path :: known) log) :
    Fresh known (.parsed path :: log) := by
  constructor
  · refine nodup_cons.mpr ⟨?_, fresh.distinct⟩
    intro again
    exact fresh.new path again mem_cons_self
  · intro other member
    rcases mem_cons.mp member with rfl | later
    · exact absent
    · intro before
      exact fresh.new other later (mem_cons_of_mem _ before)

theorem Fresh.append (earlier : Fresh known first)
    (later : Fresh ((parsedPaths first).reverse ++ known) second) :
    Fresh known (first ++ second) := by
  constructor
  · rw [parsedPaths_append]
    refine nodup_append.mpr ⟨earlier.distinct, later.distinct, ?_⟩
    rintro path before _ behind rfl
    exact later.new path behind (mem_append_left _ (mem_reverse.mpr before))
  · rw [parsedPaths_append]
    intro path member
    rcases mem_append.mp member with before | behind
    · exact earlier.new path before
    · intro there
      exact later.new path behind (mem_append_right _ there)

end Fresh

theorem readDeclaration_imported {space last declared}
    (read : readDeclaration space draft last tokens = .ok declared) :
    declared.value.session.imported = draft.session.imported := by
  have found := declarationRead_readDeclaration read
  generalize declared.value = next at found
  cases found <;> rfl

section Logged

variable {Failure : Type}

/-- What an import does to the known paths: those parsed on the way are added, and are new. -/
def NotesFresh (before : List Text) (log : List Event) (outcome : Except (Error Failure) Session) :
    Prop :=
  Fresh before log ∧
    ∀ after, outcome = .ok after → after.imported = (parsedPaths log).reverse ++ before

theorem follow_notesFresh (importer : Importer Failure) {readSource readLog}
    (sources : ∀ session path source, NotesFresh session.imported (readLog session path source)
      ((readSource session path source).map Prod.snd)) (path : Text) (draft : Draft)
    (kind : ImportKind) (reference : Text) :
    NotesFresh draft.session.imported (followLog importer readLog path draft kind reference)
      ((follow (some importer) readSource path draft kind reference).map Draft.session) := by
  unfold follow followLog
  dsimp only
  cases importer.fetch kind reference path with
  | error => exact ⟨Fresh.nil.asked, nofun⟩
  | ok document =>
    dsimp only
    split
    · refine ⟨Fresh.nil.asked, ?_⟩
      rintro _ ⟨⟩
      rfl
    · rename_i absent
      cases kind with
      | idl =>
        obtain ⟨fresh, noted⟩ := sources
          { draft.session with imported := clean document.path :: draft.session.imported }
          document.path document.content
        refine ⟨(fresh.parsed absent).asked, ?_⟩
        intro after done
        obtain ⟨⟨_, _⟩, included, rfl⟩ := map_ok.mp done
        obtain ⟨⟨protocol, session⟩, read, same⟩ := bind_ok.mp (mapError_ok.mp included)
        cases same
        have grown := noted _ (by rw [read]; rfl)
        rw [grown]
        simp [parsedPaths]
      | protocol | schema =>
        refine ⟨(Fresh.nil.parsed absent).asked, ?_⟩
        intro after done
        obtain ⟨_, included, rfl⟩ := map_ok.mp done
        unfold includeDocument at included
        dsimp only at included
        split at included
        · cases included
        · cases included
          rfl

private theorem readDeclarations_notesFresh
    {followImport : Draft → ImportKind → Text → Except (Error Failure) Draft}
    {log : Draft → ImportKind → Text → List Event}
    (imports : ∀ draft kind reference, NotesFresh draft.session.imported (log draft kind reference)
      ((followImport draft kind reference).map Draft.session))
    (path space name : Text) (last : Token) (draft : Draft) (tokens : List Token) :
    NotesFresh draft.session.imported (declarationsLog followImport log space last draft tokens)
      ((readDeclarations followImport path space name last draft tokens).map
        fun result => result.1.session) := by
  fun_induction readDeclarations followImport path space name last draft tokens with
  | case1 draft =>
    rw [declarationsLog]
    exact ⟨.nil, nofun⟩
  | case2 draft token rest closing =>
    rw [declarationsLog, if_pos closing]
    refine ⟨.nil, ?_⟩
    rintro _ ⟨⟩
    rfl
  | case3 draft token rest open_ keyword fault refused =>
    rw [declarationsLog, if_neg open_, if_pos keyword, refused]
    exact ⟨.nil, nofun⟩
  | case4 draft token rest open_ keyword statement read error failed =>
    rw [declarationsLog, if_neg open_, if_pos keyword, read]
    dsimp only
    rw [failed, append_nil]
    exact ⟨(imports _ _ _).1, nofun⟩
  | case5 draft token rest open_ keyword statement read after followed ih =>
    rw [declarationsLog, if_neg open_, if_pos keyword, read]
    dsimp only
    rw [followed]
    obtain ⟨fresh, noted⟩ := imports draft statement.value.1 statement.value.2
    have grown := noted after.session (by rw [followed]; rfl)
    obtain ⟨later, more⟩ := ih
    rw [grown] at later more
    refine ⟨fresh.append later, ?_⟩
    intro last done
    rw [more last done, parsedPaths_append, reverse_append, append_assoc]
  | case6 draft token rest open_ other fault refused =>
    rw [declarationsLog, if_neg open_, if_neg other, refused]
    exact ⟨.nil, nofun⟩
  | case7 draft token rest open_ other declared read ih =>
    rw [declarationsLog, if_neg open_, if_neg other, read]
    rw [readDeclaration_imported read] at ih
    exact ih

theorem readSource_notesFresh (importer : Importer Failure) (depth : Nat) (session : Session)
    (path source : Text) :
    NotesFresh session.imported (sourceLog importer depth session path source)
      ((readSource (some importer) depth session path source).map Prod.snd) := by
  induction depth generalizing session path source with
  | zero => exact ⟨.nil, nofun⟩
  | succ _ ih =>
    rw [sourceLog, readSource]
    cases lex source with
    | error => exact ⟨.nil, nofun⟩
    | ok lexed =>
      obtain ⟨tokens, last⟩ := lexed
      dsimp only
      unfold readProtocol
      cases readHead last tokens with
      | error => exact ⟨.nil, nofun⟩
      | ok head =>
        obtain ⟨fresh, noted⟩ := readDeclarations_notesFresh
          (follow_notesFresh importer ih path) path head.value.name.space
          head.value.name.simple last ⟨session, []⟩ head.rest
        refine ⟨fresh, ?_⟩
        intro after done
        dsimp only at done
        split at done
        · cases done
        · cases done
        · rename_i declared
          cases done
          exact noted _ (by rw [declared]; rfl)

theorem compileLog_distinct (importer : Importer Failure) (path source : Text) :
    (parsedPaths (compileLog importer path source)).Nodup := by
  have noted := readSource_notesFresh importer (1 + importer.limit)
    ⟨.start [] [], [clean path]⟩ path source
  exact (Fresh.parsed not_mem_nil noted.1).distinct

end Logged

/-! ## What imports add -/

/-- How a draft goes on from another: by declarations of sources and by what they import. Each
source whose declarations are read is permitted, and so is each kind of import. -/
inductive Builds (Reads : Text → Prop) (Imports : ImportKind → Prop) : Draft → Draft → Prop
  | here {draft : Draft} : Builds Reads Imports draft draft
  | declaration {start draft next source space all tokens last}
      (before : Builds Reads Imports start draft) (reads : Reads source)
      (lexed : lex source = .ok (all, last)) (within : tokens <:+ all)
      (read : DeclarationRead space draft last tokens next) : Builds Reads Imports start next
  | source {start draft : Draft} {imported : List Text} {after : Session} {more : List Message}
      (before : Builds Reads Imports start draft) (imports : Imports .idl)
      (inner : Builds Reads Imports ⟨{ draft.session with imported := imported }, []⟩
        ⟨after, more⟩) : Builds Reads Imports start ⟨after, draft.messages ++ more⟩
  | protocol {start draft text imported protocol scope} (before : Builds Reads Imports start draft)
      (imports : Imports .protocol)
      (read : Protocol.readDocument draft.session.scope text = .ok (protocol, scope)) :
      Builds Reads Imports start ⟨⟨scope, imported⟩, draft.messages ++ protocol.messages⟩
  | schema {start draft text imported schema scope} (before : Builds Reads Imports start draft)
      (imports : Imports .schema)
      (read : Schema.readDocument draft.session.scope text = .ok (schema, scope)) :
      Builds Reads Imports start ⟨⟨scope, imported⟩, draft.messages⟩

section Builds

variable {Failure : Type} {importer : Option (Importer Failure)} {depth : Nat}
  {Reads : Text → Prop} {Imports : ImportKind → Prop} {start result : Draft} {path source : Text}
  {session after : Session} {protocol : Protocol}

theorem readSource_ok
    (read : readSource importer (depth + 1) session path source = .ok (protocol, after)) :
    ∃ (tokens : List Token) (last : Token) (head : Consumed tokens ProtocolHead) (draft : Draft),
      lex source = .ok (tokens, last) ∧ readHead last tokens = .ok head ∧
      readDeclarations (follow importer (readSource importer depth) path) path
        head.value.name.space head.value.name.simple last ⟨session, []⟩ head.rest =
        .ok (draft, []) ∧
      protocol = ⟨head.value.name, head.value.doc, head.value.props, [], draft.messages⟩ ∧
      after = draft.session := by
  rw [readSource] at read
  split at read
  · cases read
  · rename_i tokens last lexed
    unfold readProtocol at read
    split at read
    · cases read
    · rename_i head headed
      dsimp only at read
      split at read
      · cases read
      · cases read
      · rename_i draft declared
        cases read
        exact ⟨tokens, last, head, draft, lexed, headed, declared, rfl, rfl⟩

/-- What is asked for is permitted, if it is found. -/
def Event.Permitted (Reads : Text → Prop) (Imports : ImportKind → Prop)
    (importer : Option (Importer Failure)) : Event → Prop
  | .asked kind reference origin => ∀ loader document, importer = some loader →
      loader.fetch kind reference origin = .ok document →
      Imports kind ∧ (kind = .idl → Reads document.content)
  | .parsed _ => True

def optionalLog (importer : Option (Importer Failure)) (depth : Nat) (session : Session)
    (path source : Text) : List Event :=
  importer.elim [] fun loader => sourceLog loader depth session path source

def optionalFollowLog (importer : Option (Importer Failure)) (depth : Nat) (path : Text)
    (draft : Draft) (kind : ImportKind) (reference : Text) : List Event :=
  importer.elim [] fun loader => followLog loader (sourceLog loader depth) path draft kind reference

def BuildsSources (Reads : Text → Prop) (Imports : ImportKind → Prop)
    (importer : Option (Importer Failure)) (depth : Nat) : Prop :=
  ∀ {session path source protocol after},
    (∀ event ∈ optionalLog importer depth session path source,
      event.Permitted Reads Imports importer) → Reads source →
    readSource importer depth session path source = .ok (protocol, after) →
    Builds Reads Imports ⟨session, []⟩ ⟨after, protocol.messages⟩

theorem Builds.follow (before : Builds Reads Imports start draft)
    (sources : BuildsSources Reads Imports importer depth)
    (permitted : ∀ event ∈ optionalFollowLog importer depth path draft kind reference,
      event.Permitted Reads Imports importer)
    (followed : follow importer (readSource importer depth) path draft kind reference =
      .ok result) : Builds Reads Imports start result := by
  unfold Idl.follow at followed
  split at followed
  · cases followed
  · rename_i loader
    dsimp only [optionalFollowLog, followLog, Option.elim_some] at permitted
    split at followed
    · cases followed
    · rename_i document fetched
      obtain ⟨imports, reads⟩ := permitted _ mem_cons_self loader document rfl fetched
      rw [fetched] at permitted
      dsimp only at followed permitted
      split at followed
      · cases followed
        exact before
      · rename_i new
        rw [if_neg new] at permitted
        have included := mapError_ok.mp followed
        cases kind with
        | idl =>
          obtain ⟨⟨protocol, session⟩, read, same⟩ := bind_ok.mp included
          cases same
          have inner := sources (fun event member => permitted event
            (mem_cons_of_mem _ (mem_cons_of_mem _ member))) (reads rfl) read
          exact before.source imports inner
        | protocol | schema =>
          dsimp only [includeDocument] at included
          split at included
          · cases included
          · rename_i read
            cases included
            first
              | exact .protocol before imports read
              | exact .schema before imports read

theorem Builds.declarations {space name : Text} {last : Token} {all tokens rest : List Token}
    {draft : Draft} (before : Builds Reads Imports start draft)
    (sources : BuildsSources Reads Imports importer depth)
    (permitted : ∀ event ∈ declarationsLog (Idl.follow importer (readSource importer depth) path)
      (optionalFollowLog importer depth path) space last draft tokens,
      event.Permitted Reads Imports importer)
    (reads : Reads source) (lexed : lex source = .ok (all, last)) (within : tokens <:+ all)
    (read : readDeclarations (Idl.follow importer (readSource importer depth) path) path space name
      last draft tokens = .ok (result, rest)) : Builds Reads Imports start result := by
  fun_induction readDeclarations (Idl.follow importer (readSource importer depth) path) path space
    name last draft tokens with
  | case1 | case3 | case4 | case6 => cases read
  | case2 =>
    cases read
    exact before
  | case5 draft token rest open_ keyword statement found next followed ih =>
    rw [declarationsLog, if_neg open_, if_pos keyword, found] at permitted
    dsimp only at permitted
    rw [followed] at permitted
    obtain ⟨here, behind⟩ := forall_mem_append.mp permitted
    have inside := (statement.suffix.trans (suffix_cons token rest)).trans within
    exact ih (before.follow sources here followed) behind inside read
  | case7 draft token rest open_ other declared found ih =>
    rw [declarationsLog, if_neg open_, if_neg other, found] at permitted
    have added := Builds.declaration before reads lexed within
      (declarationRead_readDeclaration found)
    exact ih added permitted (declared.suffix.trans within) read

theorem builds_readSource : BuildsSources Reads Imports importer depth := by
  -- sources read for an import are one level less deep
  induction depth with
  | zero => exact fun _ _ read => nomatch read
  | succ _ ih =>
    intro session path source protocol after permitted reads read
    obtain ⟨tokens, last, head, draft, lexed, headed, declared, rfl, rfl⟩ := readSource_ok read
    refine Builds.here.declarations ih ?_ reads lexed head.suffix declared
    cases importer with
    | none =>
      intro event _
      cases event with
      | asked => exact fun _ _ wrong => nomatch wrong
      | parsed => trivial
    | some =>
      dsimp only [optionalLog, Option.elim_some] at permitted
      rw [sourceLog, lexed] at permitted
      dsimp only at permitted
      rw [headed] at permitted
      exact permitted

theorem builds_compile {catalog : Catalog}
    (permitted : ∀ loader, importer = some loader → ∀ event ∈ compileLog loader path source,
      event.Permitted Reads Imports importer) (reads : Reads source)
    (compiled : compile importer path source = .ok (protocol, catalog)) :
    ∃ session : Session, protocol.types = session.scope.defined ∧ catalog = session.scope.catalog ∧
      Builds Reads Imports ⟨⟨.empty, [clean path]⟩, []⟩ ⟨session, protocol.messages⟩ := by
  obtain ⟨⟨read, session⟩, done, same⟩ := bind_ok.mp compiled
  cases same
  have builds := builds_readSource (fun event member => by
    cases importer with
    | none => cases member
    | some loader => exact permitted loader rfl event (mem_cons_of_mem _ member)) reads done
  exact ⟨session, rfl, rfl, builds⟩

theorem Event.permitted_always (event : Event) :
    event.Permitted (fun _ => True) (fun _ => True) importer := by
  cases event with
  | asked => exact fun _ _ _ _ => ⟨trivial, fun _ => trivial⟩
  | parsed => trivial

end Builds

/-! ## The depth is large enough -/

def Importer.Finds {Failure : Type} (importer : Importer Failure) (paths : List Text) : Prop :=
  ∀ kind reference origin document, importer.fetch kind reference origin = .ok document →
    clean document.path ∈ paths

def unread (paths known : List Text) : List Text := paths.filter fun path => path ∉ known

theorem unread_length_le {more : List Text} (paths : List Text) (within : known ⊆ more) :
    (unread paths more).length ≤ (unread paths known).length := by
  unfold unread
  rw [← countP_eq_length_filter, ← countP_eq_length_filter]
  refine countP_mono_left ?_
  intro path _ absent
  have absent := of_decide_eq_true absent
  exact decide_eq_true fun there => absent (within there)

theorem unread_cons_length_lt (member : path ∈ paths) (absent : path ∉ known) :
    (unread paths (path :: known)).length < (unread paths known).length := by
  have fewer : unread paths (path :: known) =
      (unread paths known).filter fun other => other ≠ path := by
    unfold unread
    rw [filter_filter]
    congr 1
    simp [not_or]
  rw [fewer]
  refine length_filter_lt_length_iff_exists.mpr ⟨path, ?_, by simp⟩
  exact mem_filter.mpr ⟨member, decide_eq_true absent⟩

def Error.exhausted {Failure : Type} : Error Failure → Bool
  | .tooManyDocuments => true
  | .importing _ _ _ cause => exhausted cause
  | _ => false

section Depth

variable {Failure : Type} {importer : Importer Failure} {error : Error Failure}

def AnsweredAlike (first second : Importer Failure) (log : List Event) : Prop :=
  ∀ kind reference origin, .asked kind reference origin ∈ log →
    first.fetch kind reference origin = second.fetch kind reference origin

section Agreement

variable {first second : Importer Failure} {one other : List Event}

theorem AnsweredAlike.left (alike : AnsweredAlike first second (one ++ other)) :
    AnsweredAlike first second one :=
  fun _ _ _ member => alike _ _ _ (mem_append_left _ member)

theorem AnsweredAlike.right (alike : AnsweredAlike first second (one ++ other)) :
    AnsweredAlike first second other :=
  fun _ _ _ member => alike _ _ _ (mem_append_right _ member)

private theorem follow_agree {readFirst readSecond readLog}
    (sources : ∀ document, first.fetch kind reference path = .ok document →
      clean document.path ∉ draft.session.imported →
      let session : Session :=
        { draft.session with imported := clean document.path :: draft.session.imported }
      AnsweredAlike first second (readLog session document.path document.content) →
      readFirst session document.path document.content =
        readSecond session document.path document.content)
    (alike : AnsweredAlike first second (followLog first readLog path draft kind reference)) :
    follow (some first) readFirst path draft kind reference =
      follow (some second) readSecond path draft kind reference := by
  unfold follow
  dsimp only
  rw [← alike kind reference path mem_cons_self]
  unfold followLog at alike
  cases fetched : first.fetch kind reference path with
  | error => rfl
  | ok document =>
    rw [fetched] at alike
    dsimp only at alike ⊢
    split
    · rfl
    · rename_i absent
      rw [if_neg absent] at alike
      cases kind with
      | idl =>
        have nested := sources document fetched absent fun _ _ _ member =>
          alike _ _ _ (mem_cons_of_mem _ (mem_cons_of_mem _ member))
        unfold includeDocument
        dsimp only at nested ⊢
        rw [nested]
      | protocol | schema => rfl

private theorem readDeclarations_agree
    {followFirst followSecond : Draft → ImportKind → Text → Except (Error Failure) Draft}
    {log : Draft → ImportKind → Text → List Event}
    (keeps : ∀ draft kind reference after, followFirst draft kind reference = .ok after →
      draft.session.imported ⊆ after.session.imported)
    (same : ∀ draft kind reference, known ⊆ draft.session.imported →
      AnsweredAlike first second (log draft kind reference) →
      followFirst draft kind reference = followSecond draft kind reference) (path space name : Text)
    (last : Token) (draft : Draft) (tokens : List Token) (within : known ⊆ draft.session.imported)
    (alike : AnsweredAlike first second (declarationsLog followFirst log space last draft tokens)) :
    readDeclarations followFirst path space name last draft tokens =
      readDeclarations followSecond path space name last draft tokens := by
  fun_induction readDeclarations followFirst path space name last draft tokens with
  | case1 draft => rw [readDeclarations]
  | case2 draft token rest closing => rw [readDeclarations, if_pos closing]
  | case3 draft token rest open_ keyword fault refused =>
    rw [readDeclarations, if_neg open_, if_pos keyword, refused]
  | case4 draft token rest open_ keyword statement read error failed =>
    rw [declarationsLog, if_neg open_, if_pos keyword, read] at alike
    rw [readDeclarations, if_neg open_, if_pos keyword, read]
    dsimp only at alike ⊢
    rw [← same draft _ _ within alike.left, failed]
  | case5 draft token rest open_ keyword statement read after followed ih =>
    rw [declarationsLog, if_neg open_, if_pos keyword, read] at alike
    dsimp only at alike
    rw [followed] at alike
    rw [readDeclarations, if_neg open_, if_pos keyword, read]
    dsimp only
    rw [← same draft _ _ within alike.left, followed]
    exact ih (fun key there => keeps _ _ _ _ followed (within there)) alike.right
  | case6 draft token rest open_ other fault refused =>
    rw [readDeclarations, if_neg open_, if_neg other, refused]
  | case7 draft token rest open_ other declared read ih =>
    rw [declarationsLog, if_neg open_, if_neg other, read] at alike
    rw [readDeclarations, if_neg open_, if_neg other, read]
    refine ih ?_ alike
    rw [readDeclaration_imported read]
    exact within

end Agreement

private theorem readDeclarations_error {followImport}
    (keeps : ∀ draft kind reference after, followImport draft kind reference = .ok after →
      draft.session.imported ⊆ after.session.imported) {space name last}
    (within : known ⊆ draft.session.imported)
    (failed : readDeclarations followImport path space name last draft tokens = .error error) :
    (∃ file fault, error = .malformed file fault) ∨
      ∃ draft kind reference, known ⊆ draft.session.imported ∧
        followImport draft kind reference = .error error := by
  fun_induction readDeclarations followImport path space name last draft tokens with
  | case1 draft =>
    cases failed
    exact .inl ⟨_, _, rfl⟩
  | case2 => cases failed
  | case3 | case6 =>
    cases failed
    exact .inl ⟨_, _, rfl⟩
  | case4 draft token rest open_ keyword statement read error refused =>
    cases failed
    exact .inr ⟨draft, _, _, within, refused⟩
  | case5 draft token rest open_ keyword statement read after followed ih =>
    exact ih (fun key there => keeps _ _ _ _ followed (within there)) failed
  | case7 draft token rest open_ other declared read ih =>
    refine ih ?_ failed
    rw [readDeclaration_imported read]
    exact within

theorem follow_keeps {depth : Nat} {after : Draft}
    (followed : follow (some importer) (readSource (some importer) depth) path draft kind
      reference = .ok after) : draft.session.imported ⊆ after.session.imported := by
  have noted := (follow_notesFresh importer (readSource_notesFresh importer depth) path draft kind
    reference).2 after.session (by rw [followed]; rfl)
  rw [noted]
  exact subset_append_right _ _

/-- Two importers that answer alike what the first is asked lead to the same result. It does not
depend on the depths either, if they exceed the number of documents that can still be found. -/
theorem readSource_agree {first second : Importer Failure} (finds : first.Finds paths)
    (depth other : Nat) (session : Session) (path source : Text)
    (enough : (unread paths session.imported).length < depth)
    (enoughToo : (unread paths session.imported).length < other)
    (alike : AnsweredAlike first second (sourceLog first depth session path source)) :
    readSource (some first) depth session path source =
      readSource (some second) other session path source := by
  induction depth generalizing other session path source with
  | zero => exact absurd enough (Nat.not_lt_zero _)
  | succ depth ih =>
    cases other with
    | zero => exact absurd enoughToo (Nat.not_lt_zero _)
    | succ other =>
      -- an import adds a path, so one less can be found from there
      have deeper : ∀ draft kind reference, session.imported ⊆ draft.session.imported →
          AnsweredAlike first second
            (followLog first (sourceLog first depth) path draft kind reference) →
          follow (some first) (readSource (some first) depth) path draft kind reference =
            follow (some second) (readSource (some second) other) path draft kind reference := by
        intro draft kind reference within alike
        refine follow_agree ?_ alike
        intro document fetched absent added alike
        have fewer := unread_cons_length_lt (finds _ _ _ _ fetched) absent
        have bound := unread_length_le paths within
        exact ih other added _ _ (by simp only [added]; omega) (by simp only [added]; omega) alike
      rw [sourceLog] at alike
      rw [readSource, readSource]
      cases lexed : lex source with
      | error => rfl
      | ok result =>
        obtain ⟨tokens, last⟩ := result
        rw [lexed] at alike
        dsimp only at alike ⊢
        unfold readProtocol
        cases read : readHead last tokens with
        | error => rfl
        | ok head =>
          rw [read] at alike
          dsimp only at alike ⊢
          rw [readDeclarations_agree (fun _ _ _ _ => follow_keeps) deeper path _ _ last
            ⟨session, []⟩ head.rest (fun _ => id) alike]

private theorem follow_not_exhausted {readSource}
    (sources : ∀ document, importer.fetch kind reference path = .ok document →
      clean document.path ∉ draft.session.imported →
      let session : Session :=
        { draft.session with imported := clean document.path :: draft.session.imported }
      ∀ cause, readSource session document.path document.content = .error cause →
        cause.exhausted = false)
    (failed : follow (some importer) readSource path draft kind reference = .error error) :
    error.exhausted = false := by
  unfold follow at failed
  dsimp only at failed
  split at failed
  · cases failed
    rfl
  · rename_i document fetched
    split at failed
    · cases failed
    · rename_i absent
      obtain ⟨cause, included, rfl⟩ := mapError_error.mp failed
      unfold includeDocument at included
      cases kind with
      | idl =>
        dsimp only at included
        cases read : readSource
            { draft.session with imported := clean document.path :: draft.session.imported }
            document.path document.content with
        | error refused =>
          rw [read] at included
          cases included
          have fine := sources document fetched absent cause read
          exact fine
        | ok result =>
          rw [read] at included
          cases included
      | protocol | schema =>
        dsimp only at included
        split at included <;> cases included
        rfl

theorem readSource_not_exhausted (finds : importer.Finds paths) (depth : Nat) (session : Session)
    (path source : Text) (enough : (unread paths session.imported).length < depth)
    (error : Error Failure)
    (failed : readSource (some importer) depth session path source = .error error) :
    error.exhausted = false := by
  induction depth generalizing session path source error with
  | zero => exact absurd enough (Nat.not_lt_zero _)
  | succ _ ih =>
    rw [readSource] at failed
    cases lexed : lex source with
    | error =>
      rw [lexed] at failed
      cases failed
      rfl
    | ok result =>
      rw [lexed] at failed
      dsimp only at failed
      unfold readProtocol at failed
      split at failed
      · cases failed
        rfl
      · dsimp only at failed
        split at failed
        · rename_i refused
          cases failed
          have known : session.imported ⊆ (⟨session, []⟩ : Draft).session.imported := fun _ => id
          rcases readDeclarations_error (fun _ _ _ _ => follow_keeps) known refused with
            ⟨file, fault, rfl⟩ | ⟨draft, kind, reference, within, refused⟩
          · rfl
          · refine follow_not_exhausted ?_ refused
            intro document fetched absent added cause failed
            have fewer := unread_cons_length_lt (finds _ _ _ _ fetched) absent
            have bound := unread_length_le paths within
            exact ih added _ _ (by simp only [added]; omega) cause failed
        · cases failed
          rfl
        · cases failed

theorem unread_length_le_limit (enough : paths.length ≤ importer.limit) (known : List Text) :
    (unread paths known).length < 1 + importer.limit := by
  have bound : (unread paths known).length ≤ paths.length := length_filter_le _ _
  omega

theorem compile_agree {first second : Importer Failure} {others} (finds : first.Finds paths)
    (enough : paths.length ≤ first.limit) (findsToo : second.Finds others)
    (enoughToo : others.length ≤ second.limit) {source}
    (alike : AnsweredAlike first second (compileLog first path source)) :
    compile (some first) path source = compile (some second) path source := by
  let session : Session := ⟨.start [] [], [clean path]⟩
  have few := unread_length_le_limit enough session.imported
  have fewToo := unread_length_le_limit enoughToo session.imported
  have read : readSource (some first) (1 + first.limit) session path source =
      readSource (some second) (1 + second.limit) session path source := by
    rw [readSource_agree finds _ (1 + first.limit + second.limit) session path source few (by omega)
      fun _ _ _ member => alike _ _ _ (mem_cons_of_mem _ member)]
    exact readSource_agree findsToo _ _ session path source (by omega) fewToo fun _ _ _ _ => rfl
  unfold compile compileAfter
  dsimp only [Option.elim_some]
  rw [read]

theorem compile_not_exhausted (finds : importer.Finds paths)
    (enough : paths.length ≤ importer.limit) {source : Text}
    (failed : compile (some importer) path source = .error error) : error.exhausted = false := by
  refine readSource_not_exhausted finds (1 + importer.limit) ⟨.start [] [], [clean path]⟩ path
    source (unread_length_le_limit enough _) error ?_
  unfold compile compileAfter at failed
  dsimp only [Option.elim_some] at failed
  cases read : readSource (some importer) (1 + importer.limit)
      ⟨.start [] [], [clean path]⟩ path source with
  | error cause =>
    rw [read] at failed
    cases failed
    rfl
  | ok result =>
    rw [read] at failed
    cases failed

end Depth

end Avro.Idl
