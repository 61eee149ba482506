import AWRPC.Serialization
import AWRPC.Decoding

/-!
# The calls of the loop as messages

`Discord_UpdatePresence` writes the message of a presence and counts the nonce
up. Every call of every run has a complete message that gives the presence back,
and the message is a text exactly when the texts of the call are.
-/

namespace AWRPC

open Bytes Discord CGameMemory

def callMessage (pid nonce : Int32) (call : UpdateCall) :
    Option (List UInt8) :=
  jsonWriteRichPresenceObj MaxMessageSize nonce pid (some (update call))

theorem levelEntries_nonempty : ∀ p ∈ levelEntries,
    p.2.m_mapType ≠ .EHangar → p.1 ≠ [] := by decide +kernel

/-- The texts a caller passes to `Update` are not empty. -/
structure HasTexts (call : UpdateCall) : Prop where
  state : call.state ≠ []
  details : call.details ≠ []
  mapName : call.mapName ≠ []

theorem referenceCall_hasTexts (lang : Localization)
    (level nickname : List UInt8) (timestamp : Int64) :
    HasTexts (referenceCall lang level nickname timestamp) := by
  have hplaying : lit "Playing" ≠ [] := by decide
  have hboyu : cp1251 "В бою" ≠ [] := by decide
  have hlogo : lit "small_logo_black" ≠ [] := by decide
  by_cases hmap : MapKey level
  · rw [referenceCall_of_mapKey hmap]
    obtain ⟨e, he, htype⟩ := hmap
    have hlevel : level ≠ [] :=
      levelEntries_nonempty _ (StdMap.mem_of_lookup_ofList he) htype
    cases lang with
    | EEng => exact ⟨List.cons_ne_nil _ _, hplaying, hlevel⟩
    | ERu => exact ⟨List.cons_ne_nil _ _, hboyu, hlevel⟩
  · rw [referenceCall_of_not_mapKey hmap]
    cases lang with
    | EEng =>
        have hsuffix : lit " is sitting in hangar" ≠ [] := by decide
        exact ⟨List.append_ne_nil_of_right_ne_nil _ hsuffix,
          List.cons_ne_nil _ _, hlogo⟩
    | ERu => exact ⟨List.cons_ne_nil _ _, List.cons_ne_nil _ _, hlogo⟩

/-- A presence without empty texts says all that is in it. -/
theorem shown_update {call : UpdateCall} (h : HasTexts call) :
    (update call).shown = update call := by
  have hcover : gameModeEnumToCharCoverName call.maptype ≠ [] := by
    cases call.maptype <;> decide
  have hgh : madeByGH ≠ [] := by decide
  simp [DiscordRichPresence.shown, update, h.state, h.details, h.mapName,
    hcover, hgh]

section Calls

variable {lang : Localization} {c : Setup} {env : ℕ → LoopInput} {n : ℕ}
  {call : UpdateCall}

/-- **Every call of every run is delivered whole**, whatever the nonce: its
message is complete and gives the presence of the call back. -/
theorem received_call (hcall : call ∈ callsAt lang c env n) (pid : Int32)
    {nonce : Int32} (hnonce : nonce ≠ Int32.minValue) :
    ∃ text, callMessage pid nonce call = some text ∧
      received text = some (update call) := by
  obtain ⟨level, nickname, timestamp, rfl, hnick⟩ := call_reference hcall
  have hlimits := referenceCall_withinLimits lang level timestamp hnick
  obtain ⟨text, hwrite, hread⟩ := received_presence pid hnonce hlimits
  have hshown := shown_update
    (referenceCall_hasTexts lang level nickname timestamp)
  exact ⟨text, hwrite, by rw [hread, hshown]⟩

theorem nonce_ne_of_callMessage {pid nonce : Int32} {text : List UInt8}
    (htext : callMessage pid nonce call = some text) :
    nonce ≠ Int32.minValue := by
  rintro rfl
  rw [callMessage, jsonWriteRichPresenceObj_minValue] at htext
  cases htext

/-- The message of a call is valid UTF-8 exactly when its texts are. -/
theorem valid_callMessage_iff (hcall : call ∈ callsAt lang c env n)
    {pid nonce : Int32} {text : List UInt8}
    (htext : callMessage pid nonce call = some text) :
    Utf8.Valid text ↔ ValidTexts (update call) := by
  obtain ⟨level, nickname, timestamp, rfl, hnick⟩ := call_reference hcall
  have hlimits : ∀ q ∈ some (update
      (referenceCall lang level nickname timestamp)), q.WithinLimits := by
    rintro q ⟨⟩
    exact referenceCall_withinLimits lang level timestamp hnick
  have hwrite := jsonWriteRichPresenceObj_eq MaxMessageSize pid
    (nonce_ne_of_callMessage htext) hlimits
  rw [List.take_of_length_le (length_presence_le nonce pid hlimits)] at hwrite
  rw [callMessage, hwrite] at htext
  cases htext
  rw [valid_presence_iff]
  constructor
  · intro h
    exact
      { state := h _ (by simp [DiscordRichPresence.strings])
        details := h _ (by simp [DiscordRichPresence.strings])
        largeImageKey := h _ (by simp [DiscordRichPresence.strings])
        largeImageText := h _ (by simp [DiscordRichPresence.strings])
        smallImageKey := h _ (by simp [DiscordRichPresence.strings]) }
  · intro h
    simp only [DiscordRichPresence.strings, List.forall_mem_cons]
    refine ⟨h.state, h.details, h.largeImageKey, h.largeImageText,
      h.smallImageKey, ?_⟩
    -- the call sets no other text
    simp [update]

end Calls

end AWRPC
