import MusicString.Dictionary

/-!
# Standard names

The names of instruments, percussion, tempi and controllers that a dictionary can start from.
-/

namespace MusicString.Standard

/-- The instruments, in the order of their program numbers. -/
def instruments : List String :=
  ["ACOUSTIC_GRAND", "BRIGHT_ACOUSTIC", "ELECTRIC_GRAND", "HONKEY_TONK", "ELECTRIC_PIANO",
    "ELECTRIC_PIANO_2", "HARPSICHORD", "CLAVINET", "CELESTA", "GLOCKENSPIEL", "MUSIC_BOX",
    "VIBRAPHONE", "MARIMBA", "XYLOPHONE", "TUBULAR_BELLS", "DULCIMER", "DRAWBAR_ORGAN",
    "PERCUSSIVE_ORGAN", "ROCK_ORGAN", "CHURCH_ORGAN", "REED_ORGAN", "ACCORDION", "HARMONICA",
    "TANGO_ACCORDION", "NYLON_STRING_GUITAR", "STEEL_STRING_GUITAR", "ELECTRIC_JAZZ_GUITAR",
    "ELECTRIC_CLEAN_GUITAR", "ELECTRIC_MUTED_GUITAR", "OVERDRIVEN_GUITAR", "DISTORTION_GUITAR",
    "GUITAR_HARMONICS", "ACOUSTIC_BASS", "ELECTRIC_BASS_FINGER", "ELECTRIC_BASS_PICK",
    "FRETLESS_BASS", "SLAP_BASS_1", "SLAP_BASS_2", "SYNTH_BASS_1", "SYNTH_BASS_2", "VIOLIN",
    "VIOLA", "CELLO", "CONTRABASS", "TREMOLO_STRINGS", "PIZZICATO_STRINGS", "ORCHESTRAL_STRINGS",
    "TIMPANI", "STRING_ENSEMBLE_1", "STRING_ENSEMBLE_2", "SYNTH_STRINGS_1", "SYNTH_STRINGS_2",
    "CHOIR_AAHS", "VOICE_OOHS", "SYNTH_VOICE", "ORCHESTRA_HIT", "TRUMPET", "TROMBONE", "TUBA",
    "MUTED_TRUMPET", "FRENCH_HORN", "BRASS_SECTION", "SYNTH_BRASS_1", "SYNTH_BRASS_2",
    "SOPRANO_SAX", "ALTO_SAX", "TENOR_SAX", "BARITONE_SAX", "OBOE", "ENGLISH_HORN", "BASSOON",
    "CLARINET", "PICCOLO", "FLUTE", "RECORDER", "PAN_FLUTE", "BLOWN_BOTTLE", "SHAKUHACHI",
    "WHISTLE", "OCARINA", "SQUARE", "SAWTOOTH", "CALLIOPE", "CHIFF", "CHARANG", "VOICE",
    "FIFTHS", "BASSLEAD", "NEW_AGE", "WARM", "POLYSYNTH", "CHOIR", "BOWED", "METALLIC", "HALO",
    "SWEEP", "RAIN", "SOUNDTRACK", "CRYSTAL", "ATMOSPHERE", "BRIGHTNESS", "GOBLIN", "ECHOES",
    "SCI_FI", "SITAR", "BANJO", "SHAMISEN", "KOTO", "KALIMBA", "BAGPIPE", "FIDDLE", "SHANAI",
    "TINKLE_BELL", "AGOGO", "STEEL_DRUMS", "WOODBLOCK", "TAIKO_DRUM", "MELODIC_TOM",
    "SYNTH_DRUM", "REVERSE_CYMBAL", "GUITAR_FRET_NOISE", "BREATH_NOISE", "SEASHORE",
    "BIRD_TWEET", "TELEPHONE_RING", "HELICOPTER", "APPLAUSE", "GUNSHOT"]

/-- Short names of instruments, with their program numbers. -/
def instrumentAliases : List (String × Int) :=
  [("PIANO", 0), ("GUITAR", 24), ("STRINGS", 48)]

/-- The note of the first percussion instrument. -/
def percussionBase : Nat := 35

/-- The percussion instruments, in the order of their notes. -/
def percussion : List String :=
  ["ACOUSTIC_BASS_DRUM", "BASS_DRUM", "SIDE_STICK", "ACOUSTIC_SNARE", "HAND_CLAP",
    "ELECTRIC_SNARE", "LOW_FLOOR_TOM", "CLOSED_HI_HAT", "HIGH_FLOOR_TOM", "PEDAL_HI_HAT",
    "LOW_TOM", "OPEN_HI_HAT", "LOW_MID_TOM", "HI_MID_TOM", "CRASH_CYMBAL_1", "HIGH_TOM",
    "RIDE_CYMBAL_1", "CHINESE_CYMBAL", "RIDE_BELL", "TAMBOURINE", "SPLASH_CYMBAL", "COWBELL",
    "CRASH_CYMBAL_2", "VIBRASLAP", "RIDE_CYMBAL_2", "HI_BONGO", "LOW_BONGO", "MUTE_HI_CONGA",
    "OPEN_HI_CONGA", "LOW_CONGA", "HIGH_TIMBALE", "LOW_TIMBALE", "HIGH_AGOGO", "LOW_AGOGO",
    "CABASA", "MARACAS", "SHORT_WHISTLE", "LONG_WHISTLE", "SHORT_GUIRO", "LONG_GUIRO", "CLAVES",
    "HI_WOOD_BLOCK", "LOW_WOOD_BLOCK", "MUTE_CUICA", "OPEN_CUICA", "MUTE_TRIANGLE",
    "OPEN_TRIANGLE"]

/-- Tempo words, in beats per minute. -/
def tempi : List (String × Int) :=
  [("GRAVE", 40), ("LARGO", 45), ("LARGHETTO", 50), ("LENTO", 55), ("ADAGIO", 60),
    ("ADAGIETTO", 65), ("ANDANTE", 70), ("ANDANTINO", 80), ("MODERATO", 95), ("ALLEGRETTO", 110),
    ("ALLEGRO", 120), ("VIVACE", 145), ("PRESTO", 180), ("PRESTISSIMO", 220)]

/-- The controllers of 14 bits: name, coarse number and fine number. -/
def combinedControllers : List (String × Int × Int) :=
  [("BANK_SELECT", 0, 32), ("MOD_WHEEL", 1, 33), ("BREATH", 2, 34), ("FOOT_PEDAL", 4, 36),
    ("PORTAMENTO_TIME", 5, 37), ("DATA_ENTRY", 6, 38), ("VOLUME", 7, 39), ("BALANCE", 8, 40),
    ("PAN_POSITION", 10, 42), ("EXPRESSION", 11, 43), ("EFFECT_CONTROL_1", 12, 44),
    ("EFFECT_CONTROL_2", 13, 45), ("SLIDER_1", 16, 48), ("SLIDER_2", 17, 49),
    ("SLIDER_3", 18, 50), ("SLIDER_4", 19, 51), ("NON_REGISTERED_PARAMETER", 99, 98),
    ("REGISTERED_PARAMETER", 101, 100)]

/-- The controllers of 7 bits. -/
def controllers : List (String × Int) :=
  [("HOLD_PEDAL", 64), ("PORTAMENTO", 65), ("SUSTENUTO_PEDAL", 66), ("SOFT_PEDAL", 67),
    ("LEGATO_PEDAL", 68), ("HOLD_2_PEDAL", 69), ("SOUND_VARIATION", 70), ("SOUND_TIMBRE", 71),
    ("SOUND_RELEASE_TIME", 72), ("SOUND_ATTACK_TIME", 73), ("SOUND_BRIGHTNESS", 74),
    ("PORTAMENTO_CONTROL", 84), ("EFFECTS_LEVEL", 91), ("TREMULO_LEVEL", 92),
    ("CHORUS_LEVEL", 93), ("CELESTE_LEVEL", 94), ("PHASER_LEVEL", 95),
    ("DATA_BUTTON_INCREMENT", 96), ("DATA_BUTTON_DECREMENT", 97), ("ALL_SOUND_OFF", 120),
    ("ALL_CONTROLLERS_OFF", 121), ("LOCAL_KEYBOARD", 122), ("ALL_NOTES_OFF", 123),
    ("OMNI_MODE_OFF", 124), ("OMNI_MODE_ON", 125), ("MONO_OPERATION", 126),
    ("POLY_OPERATION", 127)]

/-- Words for values of controllers. -/
def controllerValues : List (String × Int) :=
  [("ON", 127), ("OFF", 0), ("DEFAULT", 64)]

/-- A definition whose value is a byte. -/
def byteDefinition (role : Role) (name : String) (n : Int) : String × Entry :=
  (name, ⟨.byte (.nearest n), role⟩)

/-- A definition whose value is an int. -/
def intDefinition (role : Role) (name : String) (n : Int) : String × Entry :=
  (name, ⟨.int (.nearest n), role⟩)

/--
The definitions of a controller of 14 bits: its name stands for the coarse and the fine number
together, and a name for each of the two is derived from it.
-/
def combinedDefinitions : String × Int × Int → List (String × Entry)
  | (name, coarse, fine) =>
    [intDefinition .value name (coarse * 128 + fine),
      intDefinition .value (name ++ "_COARSE") coarse,
      intDefinition .value (name ++ "_FINE") fine]

/-- Names with the numbers that count them, from `base` on. -/
def numbered (base : Nat) (names : List String) : List (String × Int) :=
  names.zipIdx.map fun (name, i) => (name, ((base + i : Nat) : Int))

/-- All standard definitions. -/
def definitions : List (String × Entry) :=
  (numbered 0 instruments ++ instrumentAliases).map (fun p => byteDefinition .instrument p.1 p.2) ++
    (numbered percussionBase percussion).map (fun p => byteDefinition .value p.1 p.2) ++
    tempi.map (fun p => intDefinition .tempo p.1 p.2) ++
    combinedControllers.flatMap combinedDefinitions ++
    (controllers ++ controllerValues).map (fun p => intDefinition .value p.1 p.2)

/-- The standard dictionary. -/
def dictionary : Dictionary :=
  .ofList definitions

end MusicString.Standard
