import Asr2Pass.Server.AccessNum

/-! # Which text messages the handler gets through

The handler throws on a value that it indexes or converts at once; a field that it only stores is
converted when the next task is invoked.  `Accepted` asks for both.
-/

namespace Asr2Pass.Server

/-! ## Stored fields -/

structure Fields.Typed (fields : Fields) : Prop where
  wavName : fields.wavName.IsString
  mode : fields.mode.IsString
  itn : fields.itn.IsBoolean
  vadTailSil : fields.vadTailSil.IsNumeric
  vadMaxLen : fields.vadMaxLen.IsNumeric
  audioFs : fields.audioFs.IsNumeric
  wavFormat : fields.wavFormat.IsString
  svsLang : fields.svsLang.IsString
  svsItn : fields.svsItn.IsBoolean

/-- The conversions at the invocation of a task succeed for these fields only. -/
theorem Fields.convert_isSome (fields : Fields) : fields.convert.isSome ↔ fields.Typed := by
  constructor
  · intro converted
    obtain ⟨args, converted⟩ := Option.isSome_iff_exists.mp converted
    simp only [convert, Option.bind_eq_bind, Option.bind_eq_some_iff] at converted
    obtain ⟨_, wavName, _, mode, _, itn, _, vadTailSil, _, vadMaxLen, _, audioFs, _, wavFormat, _,
      svsLang, _, svsItn, -⟩ := converted
    have present {α : Type} {value : Option α} {result : α} (same : value = some result) :
        value.isSome = true := by rw [same]; rfl
    exact ⟨(Json.toString_isSome _).mp (present wavName), (Json.toString_isSome _).mp (present mode),
      (Json.toBool_isSome _).mp (present itn), (Json.toInt_isSome _).mp (present vadTailSil),
      (Json.toInt_isSome _).mp (present vadMaxLen), (Json.toInt_isSome _).mp (present audioFs),
      (Json.toString_isSome _).mp (present wavFormat), (Json.toString_isSome _).mp (present svsLang),
      (Json.toBool_isSome _).mp (present svsItn)⟩
  · rintro ⟨wavName, mode, itn, vadTailSil, vadMaxLen, audioFs, wavFormat, svsLang, svsItn⟩
    obtain ⟨_, wavName⟩ := Option.isSome_iff_exists.mp ((Json.toString_isSome _).mpr wavName)
    obtain ⟨_, mode⟩ := Option.isSome_iff_exists.mp ((Json.toString_isSome _).mpr mode)
    obtain ⟨_, itn⟩ := Option.isSome_iff_exists.mp ((Json.toBool_isSome _).mpr itn)
    obtain ⟨_, vadTailSil⟩ := Option.isSome_iff_exists.mp ((Json.toInt_isSome _).mpr vadTailSil)
    obtain ⟨_, vadMaxLen⟩ := Option.isSome_iff_exists.mp ((Json.toInt_isSome _).mpr vadMaxLen)
    obtain ⟨_, audioFs⟩ := Option.isSome_iff_exists.mp ((Json.toInt_isSome _).mpr audioFs)
    obtain ⟨_, wavFormat⟩ := Option.isSome_iff_exists.mp ((Json.toString_isSome _).mpr wavFormat)
    obtain ⟨_, svsLang⟩ := Option.isSome_iff_exists.mp ((Json.toString_isSome _).mpr svsLang)
    obtain ⟨_, svsItn⟩ := Option.isSome_iff_exists.mp ((Json.toBool_isSome _).mpr svsItn)
    simp [convert, wavName, mode, itn, vadTailSil, vadMaxLen, audioFs, wavFormat, svsLang, svsItn]

/-- The defaults of `on_open` convert. -/
theorem Fields.typed_default : ({} : Fields).Typed :=
  ⟨trivial, trivial, trivial, trivial, trivial, trivial, trivial, trivial, trivial⟩

/-! ## The condition on a message -/

/-- The member under `key`, if there is one. -/
def Json.Member (json : Json) (key : String) (condition : Json → Prop) : Prop :=
  ∀ value, json.member key = some value → condition value

/-- The member is stored: a condition that the old value meets. -/
theorem Json.Member.getD {json : Json} {key : String} {condition : Json → Prop} {old : Json}
    (typed : condition old) :
    condition ((json.member key).getD old) ↔ json.Member key condition := by
  cases present : json.member key with
  | none => simp [Json.Member, present, typed]
  | some value => simp [Json.Member, present]

/-- A `chunk_size` that is converted and is not for a stream. -/
def WrongChunk (json : Json) (connection : Connection) : Prop :=
  connection.tpassOnlineHandle = none ∧
    ∃ chunkSize, (json.member "chunk_size").bind Json.toInts = some chunkSize ∧
      ¬ (chunkSize.length = 3 ∧ chunkSize[1]? ≠ some 0)

/-- The `chunk_size` that a message brings for a new stream. -/
def openedChunk (json : Json) : Option (List Int) :=
  ((json.member "chunk_size").bind Json.toInts).filter fun chunkSize =>
    chunkSize.length = 3 ∧ chunkSize[1]? ≠ some 0

/-- The stream of a connection after a text message. -/
def streamAfter (json : Json) (connection : Connection) : Option (List Int) :=
  connection.tpassOnlineHandle.or (openedChunk json)

/-- What the handler needs at once. -/
structure Handled (engine : Engine) (json : Json) (connection : Connection) : Prop where
  shape : json.IsIndexable
  hotwords : connection.hotwordsEmbedding = none →
    json.Member "hotwords" fun value => value.IsNull ∨ value.IsString
  chunkSize : connection.tpassOnlineHandle = none → json.Member "chunk_size" Json.IsNumericArray
  opens : connection.tpassOnlineHandle = none → ∀ chunkSize, openedChunk json = some chunkSize →
    engine.onlineInit chunkSize

/-- What the next task needs. -/
structure Stored (json : Json) (connection : Connection) : Prop where
  wavName : json.Member "wav_name" Json.IsString
  mode : json.Member "mode" Json.IsString
  wavFormat : json.Member "wav_format" Json.IsString
  audioFs : json.Member "audio_fs" Json.IsNumeric
  options : ¬ WrongChunk json connection →
    json.Member "itn" Json.IsBoolean ∧ json.Member "vad_tail_sil" Json.IsNumeric ∧
      json.Member "vad_max_len" Json.IsNumeric ∧ json.Member "svs_lang" Json.IsString ∧
      json.Member "svs_itn" Json.IsBoolean

/-- A call on a stream of this `chunk_size` survives these members. -/
def Fields.SurvivesOn (fields : Fields) (chunkSize : List Int) : Prop :=
  ∀ args : Args, fields.mode.toString = some args.modetype →
    fields.wavFormat.toString = some args.wavFormat → fields.audioFs.toInt = some args.audioFs →
      args.Survives chunkSize

/-- What the calls on the stream need, for the tasks that wait as for the next one. -/
structure Survivable (json : Json) (connection : Connection) : Prop where
  stored : ∀ chunkSize, streamAfter json connection = some chunkSize →
    ((connection.storeNames json).storeAudioFs json).fields.SurvivesOn chunkSize
  waiting : ∀ chunkSize, streamAfter json connection = some chunkSize →
    ∀ task ∈ connection.strand, task.fields.SurvivesOn chunkSize

structure Accepted (engine : Engine) (json : Json) (connection : Connection) : Prop where
  handled : Handled engine json connection
  stored : Stored json connection
  served : Survivable json connection

namespace Connection

variable {engine : Engine} {connection : Connection} {json : Json}

theorem textHotwords_isSome (engine : Engine) (json : Json) :
    (textHotwords engine json).isSome ↔
      json.IsIndexable ∧ json.Member "hotwords" fun value => value.IsNull ∨ value.IsString := by
  cases json with
  | object members =>
    simp only [textHotwords, Json.index, Json.Member, Json.member, Option.bind_some,
      Json.IsIndexable, true_and]
    cases members.lookup "hotwords" with
    | none => simp
    | some value => cases value <;> simp [Json.toString, Json.IsString, Json.IsNull]
  | _ => simp [textHotwords, Json.index, Json.IsIndexable, Json.Member, Json.member]

theorem loadHotwords_isSome : (connection.loadHotwords engine json).isSome ↔
    (connection.hotwordsEmbedding = none → (textHotwords engine json).isSome) := by
  rcases embedded : connection.hotwordsEmbedding with _ | embedding <;> simp [loadHotwords, embedded]

theorem openedChunk_eq {value : Json} {chunkSize : List Int}
    (chunk : json.member "chunk_size" = some value) (ints : value.toInts = some chunkSize) :
    openedChunk json =
      if chunkSize.length = 3 ∧ chunkSize[1]? ≠ some 0 then some chunkSize else none := by
  rw [openedChunk, chunk, Option.bind_some, ints, Option.filter_some]
  simp only [decide_eq_true_eq]

/-- What a message with a `chunk_size` does without a stream. -/
theorem openStream_chunk {value : Json} (chunk : json.member "chunk_size" = some value)
    (null : connection.tpassOnlineHandle = none) :
    connection.openStream engine json = value.toInts.bind fun chunkSize =>
      if chunkSize.length = 3 ∧ chunkSize[1]? ≠ some 0 then
        if engine.onlineInit chunkSize then
          some ({ connection with
            calls := connection.calls ++ [.onlineInit chunkSize]
            tpassOnlineHandle := some chunkSize }, true)
        else none
      else some (connection, false) := by
  simp only [openStream, chunk, null]
  rfl

/-- A message without one, or on a stream. -/
theorem openStream_kept
    (kept : json.member "chunk_size" = none ∨ connection.tpassOnlineHandle ≠ none) :
    connection.openStream engine json = some (connection, true) := by
  cases chunk : json.member "chunk_size" with
  | none => simp only [openStream, chunk]
  | some value =>
    cases handle : connection.tpassOnlineHandle with
    | none => simp [chunk, handle] at kept
    | some stream => simp only [openStream, chunk, handle]

theorem openStream_isSome : (connection.openStream engine json).isSome ↔
    (connection.tpassOnlineHandle = none → json.Member "chunk_size" Json.IsNumericArray ∧
      ∀ chunkSize, openedChunk json = some chunkSize → engine.onlineInit chunkSize) := by
  by_cases kept : json.member "chunk_size" = none ∨ connection.tpassOnlineHandle ≠ none
  · rw [openStream_kept kept]
    refine ⟨fun _ null => ?_, fun _ => rfl⟩
    have absent := kept.resolve_right (absurd null)
    simp [Json.Member, openedChunk, absent]
  · obtain ⟨present, null⟩ := not_or.mp kept
    obtain ⟨value, chunk⟩ := Option.ne_none_iff_exists'.mp present
    have null := not_ne_iff.mp null
    rw [openStream_chunk chunk null]
    have converts := Json.toInts_isSome value
    cases ints : value.toInts with
    | none =>
      rw [ints] at converts
      simpa [null, chunk, ints, Json.Member, openedChunk] using converts
    | some chunkSize =>
      rw [ints] at converts
      have numeric : value.IsNumericArray := converts.mp rfl
      have member : json.Member "chunk_size" Json.IsNumericArray := by
        rintro _ same
        rw [chunk] at same
        cases same
        exact numeric
      rw [openedChunk_eq chunk ints, Option.bind_some]
      split <;> simp [null, member]

/-- The answer to a wrong `chunk_size`. -/
theorem openStream_wrong {opened : Connection} {right : Bool}
    (ran : connection.openStream engine json = some (opened, right)) :
    right = false ↔ WrongChunk json connection := by
  by_cases kept : json.member "chunk_size" = none ∨ connection.tpassOnlineHandle ≠ none
  · rw [openStream_kept kept] at ran
    cases ran
    rcases kept with absent | handle
    · simp [WrongChunk, absent]
    · simp [WrongChunk, handle]
  · obtain ⟨present, null⟩ := not_or.mp kept
    obtain ⟨value, chunk⟩ := Option.ne_none_iff_exists'.mp present
    have null := not_ne_iff.mp null
    rw [openStream_chunk chunk null] at ran
    obtain ⟨chunkSize, ints, ran⟩ := Option.bind_eq_some_iff.mp ran
    by_cases valid : chunkSize.length = 3 ∧ chunkSize[1]? ≠ some 0
    · rw [if_pos valid] at ran
      obtain ⟨-, same⟩ := Option.ite_none_right_eq_some.mp ran
      cases same
      refine ⟨fun wrong => absurd wrong Bool.noConfusion, ?_⟩
      rintro ⟨-, chunkSize', same, wrong⟩
      rw [chunk, Option.bind_some, ints] at same
      cases same
      exact absurd valid wrong
    · rw [if_neg valid] at ran
      cases ran
      simp only [WrongChunk, null, chunk, Option.bind_some, ints, true_and, true_iff]
      exact ⟨chunkSize, rfl, valid⟩

/-- The stream behind a message that is handled. -/
theorem openStream_stream {opened : Connection} {right : Bool}
    (ran : connection.openStream engine json = some (opened, right)) :
    opened.tpassOnlineHandle = streamAfter json connection := by
  by_cases kept : json.member "chunk_size" = none ∨ connection.tpassOnlineHandle ≠ none
  · rw [openStream_kept kept] at ran
    cases ran
    rcases kept with absent | handle
    · simp [streamAfter, openedChunk, absent]
    · obtain ⟨stream, handle⟩ := Option.ne_none_iff_exists'.mp handle
      simp [streamAfter, handle]
  · obtain ⟨present, null⟩ := not_or.mp kept
    obtain ⟨value, chunk⟩ := Option.ne_none_iff_exists'.mp present
    have null := not_ne_iff.mp null
    rw [openStream_chunk chunk null] at ran
    obtain ⟨chunkSize, ints, ran⟩ := Option.bind_eq_some_iff.mp ran
    by_cases valid : chunkSize.length = 3 ∧ chunkSize[1]? ≠ some 0
    · rw [if_pos valid] at ran
      obtain ⟨-, same⟩ := Option.ite_none_right_eq_some.mp ran
      cases same
      rw [streamAfter, null, openedChunk_eq chunk ints, if_pos valid, Option.none_or]
    · rw [if_neg valid] at ran
      cases ran
      rw [streamAfter, null, openedChunk_eq chunk ints, if_neg valid, Option.none_or]

theorem postFinal_isSome : (connection.postFinal json).isSome ↔ json.IsIndexable := by
  rw [← Json.index_isSome json "is_speaking"]
  constructor
  · intro posted
    obtain ⟨handled, ran⟩ := Option.isSome_iff_exists.mp posted
    simp only [postFinal, clientDone, Option.bind_eq_bind, Option.bind_eq_some_iff] at ran
    obtain ⟨_, ⟨isSpeaking, indexed, -⟩, -⟩ := ran
    rw [indexed]
    rfl
  · intro indexed
    have indexable := (Json.index_isSome json "is_speaking").mp indexed
    obtain ⟨isSpeaking, speaking⟩ := Option.isSome_iff_exists.mp indexed
    obtain ⟨isFinished, finished⟩ :=
      Option.isSome_iff_exists.mp ((Json.index_isSome json "is_finished").mpr indexable)
    simp only [postFinal, clientDone, speaking, finished, Option.bind_eq_bind, Option.bind_some,
      Option.pure_def]
    split
    · split <;> rfl
    · rfl

theorem indexable_of_member {key : String} {value : Json} (present : json.member key = some value) :
    json.IsIndexable := by
  cases json with
  | object members => trivial
  | _ => simp [Json.member] at present

/-- The pieces of a text message that is handled. -/
theorem onText_parts {handled : Connection} (ran : connection.onText engine json = some handled) :
    ∃ loaded opened right, (connection.storeNames json).loadHotwords engine json = some loaded ∧
      (loaded.storeAudioFs json).openStream engine json = some (opened, right) ∧
      (if right then (opened.storeOptions json).postFinal json else some opened) = some handled := by
  simp only [onText, Option.bind_eq_bind, Option.bind_eq_some_iff, Prod.exists] at ran
  obtain ⟨loaded, load, opened, right, stream, ran⟩ := ran
  exact ⟨loaded, opened, right, load, stream, ran⟩

/-- Loading the hotwords leaves the rest. -/
theorem loadHotwords_same {loaded : Connection}
    (ran : (connection.storeNames json).loadHotwords engine json = some loaded) :
    loaded.fields = (connection.storeNames json).fields ∧
      loaded.tpassOnlineHandle = connection.tpassOnlineHandle := by
  rcases loadHotwords_cases ran with ⟨-, rfl⟩ | ⟨-, hotwords, embedding, rfl⟩ <;> exact ⟨rfl, rfl⟩

theorem wrongChunk_congr {connection' : Connection}
    (same : connection'.tpassOnlineHandle = connection.tpassOnlineHandle) :
    WrongChunk json connection' ↔ WrongChunk json connection := by
  rw [WrongChunk, WrongChunk, same]

theorem onText_isSome :
    (connection.onText engine json).isSome ↔ Handled engine json connection := by
  constructor
  · intro some
    obtain ⟨handled, ran⟩ := Option.isSome_iff_exists.mp some
    obtain ⟨loaded, opened, right, load, stream, ran⟩ := onText_parts ran
    have handle := (loadHotwords_same load).2
    have shape : json.IsIndexable := by
      cases right with
      | false =>
        obtain ⟨-, chunkSize, converted, -⟩ := (openStream_wrong stream).mp rfl
        obtain ⟨value, present, -⟩ := Option.bind_eq_some_iff.mp converted
        exact indexable_of_member present
      | true =>
        rw [if_pos rfl] at ran
        exact postFinal_isSome.mp (Option.isSome_iff_exists.mpr ⟨handled, ran⟩)
    have streams := openStream_isSome.mp (Option.isSome_iff_exists.mpr ⟨_, stream⟩)
    refine ⟨shape, fun fresh => ?_, fun null => (streams (handle.trans null)).1,
      fun null => (streams (handle.trans null)).2⟩
    have texts := loadHotwords_isSome.mp (Option.isSome_iff_exists.mpr ⟨loaded, load⟩) fresh
    exact ((textHotwords_isSome engine json).mp texts).2
  · rintro ⟨shape, hotwords, chunkSize, opens⟩
    have load : ((connection.storeNames json).loadHotwords engine json).isSome :=
      loadHotwords_isSome.mpr fun fresh =>
        (textHotwords_isSome engine json).mpr ⟨shape, hotwords fresh⟩
    obtain ⟨loaded, load⟩ := Option.isSome_iff_exists.mp load
    have handle := (loadHotwords_same load).2
    have stream : ((loaded.storeAudioFs json).openStream engine json).isSome :=
      openStream_isSome.mpr fun null =>
        ⟨chunkSize (handle.symm.trans null), opens (handle.symm.trans null)⟩
    obtain ⟨⟨opened, right⟩, stream⟩ := Option.isSome_iff_exists.mp stream
    simp only [onText, load, stream, Option.bind_eq_bind, Option.bind_some]
    split
    · exact postFinal_isSome.mpr shape
    · rfl

/-- The fields that a text message stores: its options unless its `chunk_size` is a wrong one. -/
theorem onText_fields {handled : Connection} (ran : connection.onText engine json = some handled) :
    (WrongChunk json connection ∧
      handled.fields = ((connection.storeNames json).storeAudioFs json).fields) ∨
    (¬ WrongChunk json connection ∧
      handled.fields = (((connection.storeNames json).storeAudioFs json).storeOptions json).fields) := by
  obtain ⟨loaded, opened, right, load, stream, ran⟩ := onText_parts ran
  obtain ⟨names, handle⟩ := loadHotwords_same load
  have wrong := (openStream_wrong stream).trans
    (wrongChunk_congr (show (loaded.storeAudioFs json).tpassOnlineHandle = _ from handle))
  have base : opened.fields = ((connection.storeNames json).storeAudioFs json).fields := by
    have stored : (loaded.storeAudioFs json).fields =
        ((connection.storeNames json).storeAudioFs json).fields := by
      simp only [storeAudioFs, names]
    rw [← stored]
    rcases openStream_cases stream with rfl | ⟨-, -, chunkSize, rfl⟩ <;> rfl
  cases right with
  | false =>
    rw [if_neg (by decide)] at ran
    cases ran
    exact .inl ⟨wrong.mp rfl, base⟩
  | true =>
    rw [if_pos rfl] at ran
    have valid : ¬ WrongChunk json connection := fun contra => by cases wrong.mpr contra
    refine .inr ⟨valid, ?_⟩
    have stored : (opened.storeOptions json).fields =
        (((connection.storeNames json).storeAudioFs json).storeOptions json).fields := by
      simp only [storeOptions, base]
    rw [← stored]
    rcases postFinal_cases ran with rfl | ⟨-, embedding, -, rfl⟩ <;> rfl

/-- What a text message stores converts when each stored member does. -/
theorem onText_typed {handled : Connection} (typed : connection.fields.Typed)
    (ran : connection.onText engine json = some handled) :
    handled.fields.Typed ↔ Stored json connection := by
  obtain ⟨wrong, fields⟩ | ⟨right, fields⟩ := onText_fields ran
  · rw [fields]
    constructor
    · intro later
      exact ⟨(Json.Member.getD typed.wavName).mp later.wavName,
        (Json.Member.getD typed.mode).mp later.mode,
        (Json.Member.getD typed.wavFormat).mp later.wavFormat,
        (Json.Member.getD typed.audioFs).mp later.audioFs, fun right => absurd wrong right⟩
    · rintro ⟨wavName, mode, wavFormat, audioFs, -⟩
      exact ⟨(Json.Member.getD typed.wavName).mpr wavName, (Json.Member.getD typed.mode).mpr mode,
        typed.itn, typed.vadTailSil, typed.vadMaxLen, (Json.Member.getD typed.audioFs).mpr audioFs,
        (Json.Member.getD typed.wavFormat).mpr wavFormat, typed.svsLang, typed.svsItn⟩
  · rw [fields]
    constructor
    · intro later
      exact ⟨(Json.Member.getD typed.wavName).mp later.wavName,
        (Json.Member.getD typed.mode).mp later.mode,
        (Json.Member.getD typed.wavFormat).mp later.wavFormat,
        (Json.Member.getD typed.audioFs).mp later.audioFs,
        fun _ => ⟨(Json.Member.getD typed.itn).mp later.itn,
          (Json.Member.getD typed.vadTailSil).mp later.vadTailSil,
          (Json.Member.getD typed.vadMaxLen).mp later.vadMaxLen,
          (Json.Member.getD typed.svsLang).mp later.svsLang,
          (Json.Member.getD typed.svsItn).mp later.svsItn⟩⟩
    · rintro ⟨wavName, mode, wavFormat, audioFs, options⟩
      obtain ⟨itn, vadTailSil, vadMaxLen, svsLang, svsItn⟩ := options right
      exact ⟨(Json.Member.getD typed.wavName).mpr wavName, (Json.Member.getD typed.mode).mpr mode,
        (Json.Member.getD typed.itn).mpr itn, (Json.Member.getD typed.vadTailSil).mpr vadTailSil,
        (Json.Member.getD typed.vadMaxLen).mpr vadMaxLen, (Json.Member.getD typed.audioFs).mpr audioFs,
        (Json.Member.getD typed.wavFormat).mpr wavFormat, (Json.Member.getD typed.svsLang).mpr svsLang,
        (Json.Member.getD typed.svsItn).mpr svsItn⟩

/-- The options do not decide what a call comes to. -/
theorem onText_survivesOn {handled : Connection} (ran : connection.onText engine json = some handled)
    (chunkSize : List Int) : handled.fields.SurvivesOn chunkSize ↔
      ((connection.storeNames json).storeAudioFs json).fields.SurvivesOn chunkSize := by
  obtain ⟨wrong, fields⟩ | ⟨right, fields⟩ := onText_fields ran
  · rw [fields]
  · rw [fields]
    exact Iff.rfl

theorem onText_stream {handled : Connection} (ran : connection.onText engine json = some handled) :
    handled.tpassOnlineHandle = streamAfter json connection := by
  obtain ⟨loaded, opened, right, load, stream, ran⟩ := onText_parts ran
  have handle := (loadHotwords_same load).2
  have opening : opened.tpassOnlineHandle = streamAfter json connection := by
    rw [openStream_stream stream, streamAfter, streamAfter]
    exact congrArg (Option.or · _) handle
  cases right with
  | false =>
    cases ran
    exact opening
  | true =>
    rw [if_pos rfl] at ran
    rw [← opening]
    rcases postFinal_cases ran with rfl | ⟨-, embedding, -, rfl⟩ <;> rfl

end Connection

/-- The members that are converted when a task is invoked. -/
theorem Fields.convert_members {fields : Fields} {args : Args}
    (converted : fields.convert = some args) : fields.mode.toString = some args.modetype ∧
      fields.wavFormat.toString = some args.wavFormat ∧ fields.audioFs.toInt = some args.audioFs := by
  simp only [convert, Option.bind_eq_bind, Option.bind_eq_some_iff] at converted
  obtain ⟨_, -, _, mode, _, -, _, -, _, -, _, audioFs, _, wavFormat, _, -, _, -, same⟩ := converted
  cases same
  exact ⟨mode, wavFormat, audioFs⟩

/-- The arguments of a task survive a call when its members do. -/
theorem Fields.survivesOn_iff {fields : Fields} {args : Args} (converted : fields.convert = some args)
    (chunkSize : List Int) : fields.SurvivesOn chunkSize ↔ args.Survives chunkSize := by
  obtain ⟨mode, wavFormat, audioFs⟩ := convert_members converted
  constructor
  · intro served
    exact served args mode wavFormat audioFs
  · intro survives args' mode' wavFormat' audioFs'
    rw [mode, Option.some_inj] at mode'
    rw [wavFormat, Option.some_inj] at wavFormat'
    rw [audioFs, Option.some_inj] at audioFs'
    rwa [Args.Survives, Args.Loads, Args.IsPcm, ← mode', ← wavFormat', ← audioFs']

end Asr2Pass.Server
