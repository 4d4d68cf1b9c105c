/-!
Texts as bytes. `decodeUtf8?` accepts exactly the encodings of texts.
-/

namespace RemoteInspector

abbrev Bytes := List UInt8

namespace Text

def utf8 (s : String) : Bytes := s.toUTF8.data.toList

def decodeUtf8? (bytes : Bytes) : Option String :=
  String.fromUTF8? ⟨bytes.toArray⟩

end Text

end RemoteInspector
