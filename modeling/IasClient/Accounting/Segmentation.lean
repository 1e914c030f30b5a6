import IasClient.Accounting.UploadToken
import IasClient.Model.Libtool
import Mathlib.Data.List.TakeWhile

namespace IasClient

open Framework

/-- A character that separates nothing in a report and does not end `rbuffer`. -/
def plain (c : Char) : Bool := c != ',' && c != ';' && c != '\x00'

/-- An entry `data,x,time,stamp;` of an upload report. -/
structure Entry where
  data : List Char
  x : List Char
  time : List Char
  stamp : List Char
  nonempty : data ≠ [] ∧ x ≠ [] ∧ time ≠ []
  digits : (data ++ stamp).all Char.isDigit = true
  fields : (x ++ time).all plain = true
  six : 6 ≤ stamp.length

namespace Entry

/-- The entry without the `;` that ends it. -/
def token (e : Entry) : List Char := e.data ++ ',' :: (e.x ++ ',' :: (e.time ++ ',' :: e.stamp))

def text (e : Entry) : List Char := e.token ++ [';']

theorem plain_of_isDigit {c : Char} (h : c.isDigit = true) : plain c = true := by
  have h1 : c ≠ ',' := by rintro rfl; simp at h
  have h2 : c ≠ ';' := by rintro rfl; simp at h
  have h3 : c ≠ '\x00' := by rintro rfl; simp at h
  simp [plain, h1, h2, h3]

theorem plain_field (e : Entry) {c : Char}
    (h : c ∈ e.data ∨ c ∈ e.x ∨ c ∈ e.time ∨ c ∈ e.stamp) : plain c = true := by
  have hd := List.all_eq_true.mp e.digits
  have hf := List.all_eq_true.mp e.fields
  rcases h with h | h | h | h
  · exact plain_of_isDigit (hd c (by simp [h]))
  · exact hf c (by simp [h])
  · exact hf c (by simp [h])
  · exact plain_of_isDigit (hd c (by simp [h]))

theorem mem_token {e : Entry} {c : Char} (h : c ∈ e.token) : c = ',' ∨ plain c = true := by
  simp only [token, List.mem_append, List.mem_cons] at h
  have := e.plain_field (c := c)
  tauto

theorem token_ne_nil (e : Entry) : e.token ≠ [] := by
  simp [token]

theorem text_ne_nil (e : Entry) : e.text ≠ [] := by
  simp [text]

theorem not_mem_token (e : Entry) : ';' ∉ e.token := by
  intro h
  rcases mem_token h with h | h <;> simp [plain] at h

theorem nul_not_mem_text (e : Entry) : '\x00' ∉ e.text := by
  intro h
  rcases List.mem_append.mp h with h | h
  · rcases mem_token h with h | h <;> simp [plain] at h
  · simp at h

/-- The fields of a token, as `CTool::tokenize` finds them. -/
theorem tokens_token (e : Entry) : tokens e.token ',' = [e.data, e.x, e.time, e.stamp] := by
  have hno (s : List Char) (h : ∀ c ∈ s, plain c = true) : ',' ∉ s := by
    intro hc
    simpa [plain] using h _ hc
  have hdata := hno e.data fun c h => e.plain_field (.inl h)
  have hx := hno e.x fun c h => e.plain_field (.inr (.inl h))
  have htime := hno e.time fun c h => e.plain_field (.inr (.inr (.inl h)))
  have hstamp := hno e.stamp fun c h => e.plain_field (.inr (.inr (.inr h)))
  have hne : e.stamp ≠ [] := by
    have := e.six
    intro hs
    simp [hs] at this
  obtain ⟨h1, h2, h3⟩ := e.nonempty
  rw [token, tokens_append_cons, tokens_append_cons, tokens_append_cons,
    tokens_of_notMem hdata h1, tokens_of_notMem hx h2, tokens_of_notMem htime h3,
    tokens_of_notMem hstamp hne]
  rfl

end Entry

/-- The pieces of a report are its entries. -/
theorem tokens_report (es : List Entry) : tokens (es.flatMap Entry.text) ';' = es.map Entry.token := by
  induction es with
  | nil => simp
  | cons e es ih =>
    rw [List.flatMap_cons, Entry.text, List.append_assoc, List.singleton_append, tokens_append_cons,
      tokens_of_notMem e.not_mem_token e.token_ne_nil, ih]
    rfl

namespace Upload

variable {env : Env} {maxPacketSize : Nat}

/-- A well-formed entry is decoded whole. -/
theorem decode_entry (htok : env.tokenize = Libtool.tokenize) (e : Entry) :
    decode env e.token =
      .entry (env.toULL e.data) (env.toULL (e.stamp.drop (e.stamp.length - 6))) := by
  have hsix : ¬ e.stamp.length < 6 := Nat.not_lt.mpr e.six
  simp [decode, htok, Libtool.tokenize, e.tokens_token, lastSix, hsix]

theorem processTokens_entries (htok : env.tokenize = Libtool.tokenize) (es : List Entry)
    (s : Globals × UploadData) : ∃ t, processTokens env s (es.map Entry.token) = some t := by
  induction es generalizing s with
  | nil => exact ⟨s, rfl⟩
  | cons e es ih =>
    obtain ⟨t, ht⟩ := ih (account s.1 (setDecoded (env.toULL e.data)
      (env.toULL (e.stamp.drop (e.stamp.length - 6))) s.2))
    refine ⟨t, ?_⟩
    rw [← ht]
    simp [processTokens, processToken, decode_entry htok]

theorem processTokens_append (s : Globals × UploadData) (v w : List (List Char)) :
    processTokens env s (v ++ w) = (processTokens env s v).bind (processTokens env · w) := by
  simp [processTokens, List.foldlM_append]

/-- The receive loop passes over the pieces of its chunks. -/
theorem receiveChunks_eq (chunks : List (List Char)) (s : Globals × UploadData)
    (hne : ∀ c ∈ chunks, c ≠ []) (hlen : ∀ c ∈ chunks, c.length < maxPacketSize) :
    receiveChunks env maxPacketSize chunks s =
      processTokens env s (chunks.flatMap fun c => env.tokenize (sResponse c) ';') := by
  induction chunks generalizing s with
  | nil => rfl
  | cons c chunks ih =>
    have hc := hne c (by simp)
    have hl := hlen c (by simp)
    rw [receiveChunks, if_neg hc, if_pos hl, List.flatMap_cons, processTokens_append]
    congr 1
    funext t
    exact ih t (fun d hd => hne d (by simp [hd])) (fun d hd => hlen d (by simp [hd]))

theorem sResponse_of_not_mem {chunk : List Char} (h : '\x00' ∉ chunk) : sResponse chunk = chunk := by
  rw [sResponse, List.takeWhile_eq_self_iff]
  intro c hc
  have : c ≠ '\x00' := by
    rintro rfl
    exact h hc
  simpa using this

/-- The chunks of a report are read to their ends. -/
theorem sResponse_chunk {chunks : List (List Char)} {es : List Entry}
    (hcat : chunks.flatten = es.flatMap Entry.text) {c : List Char} (hc : c ∈ chunks) :
    sResponse c = c := by
  apply sResponse_of_not_mem
  intro hn
  have hmem : '\x00' ∈ chunks.flatten := List.mem_flatten.mpr ⟨c, hc, hn⟩
  rw [hcat, List.mem_flatMap] at hmem
  obtain ⟨e, -, he⟩ := hmem
  exact e.nul_not_mem_text he

theorem flatMap_tokenize (htok : env.tokenize = Libtool.tokenize) {chunks : List (List Char)}
    {es : List Entry} (hcat : chunks.flatten = es.flatMap Entry.text) :
    (chunks.flatMap fun c => env.tokenize (sResponse c) ';') = chunks.flatMap (tokens · ';') := by
  rw [List.flatMap_def, List.flatMap_def]
  congr 1
  apply List.map_congr_left
  intro c hc
  rw [sResponse_chunk hcat hc, htok]
  rfl

/-- Of a report delivered in non-empty chunks that fit `rbuffer`: the receive loop is handed exactly
the entries if and only if every cut stands after or before a `;`, and then it ends as after the
delivery of every entry in a chunk of its own, without a throw or a missing field. -/
theorem report_at_boundaries (env : Env) (htok : env.tokenize = Libtool.tokenize)
    (maxPacketSize : Nat) (es : List Entry) (chunks : List (List Char))
    (hcat : chunks.flatten = es.flatMap Entry.text) (hne : ∀ c ∈ chunks, c ≠ [])
    (hlen : ∀ c ∈ chunks, c.length < maxPacketSize)
    (hwhole : ∀ e ∈ es, e.text.length < maxPacketSize) (g : Globals) (u : UploadData) :
    ((chunks.flatMap fun c => env.tokenize (sResponse c) ';') = es.map Entry.token ↔
      chunks.IsChain (Apart ';')) ∧
    (chunks.IsChain (Apart ';') → ∃ t, receiveChunks env maxPacketSize chunks (g, u) = some t ∧
      receiveChunks env maxPacketSize (es.map Entry.text) (g, u) = some t) := by
  have hiff : (chunks.flatMap fun c => env.tokenize (sResponse c) ';') = es.map Entry.token ↔
      chunks.IsChain (Apart ';') := by
    rw [flatMap_tokenize htok hcat, ← tokens_flatten_iff hne, hcat, tokens_report]
    exact eq_comm
  refine ⟨hiff, fun hcut => ?_⟩
  have hcat' : (es.map Entry.text).flatten = es.flatMap Entry.text := (List.flatMap_def ..).symm
  have hentry : ((es.map Entry.text).flatMap fun c => env.tokenize (sResponse c) ';') =
      es.map Entry.token := by
    have hone (e : Entry) : tokens e.text ';' = [e.token] := by simpa using tokens_report [e]
    rw [flatMap_tokenize htok hcat', List.flatMap_map]
    simp only [hone, ← List.map_eq_flatMap]
  obtain ⟨t, ht⟩ := processTokens_entries htok es (g, u)
  refine ⟨t, ?_, ?_⟩
  · rw [receiveChunks_eq chunks _ hne hlen, hiff.mpr hcut, ht]
  · rw [receiveChunks_eq _ _ (by simp [Entry.text_ne_nil]) (by simpa using hwhole), hentry, ht]

/-- The entry `100,1,7,123456;`. -/
def entry100 : Entry where
  data := "100".toList
  x := "1".toList
  time := "7".toList
  stamp := "123456".toList
  nonempty := by decide
  digits := by decide
  fields := by decide
  six := by decide

theorem report_at_boundaries_beforeSemicolon :
    [entry100.text ++ entry100.token, [';']].IsChain (Apart ';') ∧
    ∃ t, receiveChunks Env.default 100 [entry100.text ++ entry100.token, [';']]
        (Globals.default, {}) = some t ∧
      receiveChunks Env.default 100 ([entry100, entry100].map Entry.text)
        (Globals.default, {}) = some t :=
  ⟨by decide, (report_at_boundaries Env.default rfl 100 [entry100, entry100]
    [entry100.text ++ entry100.token, [';']] (by decide) (by decide) (by decide) (by decide)
    Globals.default {}).2 (by decide)⟩

/-- A report cut inside a stamp makes `substr` throw; one cut before a time ends without an entry. -/
theorem cutEntry_differs :
    (["100,1,7,1234".toList, "56;".toList].flatten = [entry100].flatMap Entry.text ∧
      receiveChunks Env.default 100 ["100,1,7,1234".toList, "56;".toList]
        (Globals.default, {}) = none) ∧
    ["100,1,7,123456;100,1,".toList, "7,123456;".toList].flatten =
      [entry100, entry100].flatMap Entry.text ∧
    ((receiveChunks Env.default 100 ["100,1,7,123456;100,1,".toList, "7,123456;".toList]
      (Globals.default, {})).map fun t => t.2.mUpload.datasizeTotal) = some 800 ∧
    ((receiveChunks Env.default 100 ([entry100, entry100].map Entry.text)
      (Globals.default, {})).map fun t => t.2.mUpload.datasizeTotal) = some 1600 := by
  decide

end Upload

end IasClient
