import Cspot.Net.Cmq.Answers
import Cspot.Net.Zmq.Answers

/-!
# One reply to a request

A turn of a server is a message taken off the socket.  It answers with one message when its
handler does.
-/

namespace Cspot

/-- One server answers unknown tags and the other does not. -/
def Transport.Answers (hmac : Hmac) (srv : Server) : Transport → List Frame → Prop
  | _, [] => False
  | .zmq, f :: frames =>
    ∀ tag, Zmq.readTag f = .ok (some tag) → Zmq.TagAnswers hmac srv tag frames
  | .cmq, f :: frames =>
    ∃ tag, Cmq.readTag f = .ok (some tag) ∧ Cmq.TagAnswers hmac srv tag frames

end Cspot
