import FaceDetection.Service
import FaceDetection.Webcc.Message

/-!
# From a request to a response

`rest_service_manager.cc`, `rest_service.cc`, `rest_request_handler.cc`, and what `main` binds. Regular
expressions are a parameter. gzip is off.
-/

open FaceDetection.Json

namespace FaceDetection.Webcc

/-! ## Services -/

variable {S : Type}

def kGet : Bytes := ascii "GET"
def kPost : Bytes := ascii "POST"

/-- What a `RestListService` does for GET and for POST. -/
structure ListService where
  get : UrlQuery → RestResponse → Except Fault RestResponse
  post : Bytes → RestResponse → Except Fault RestResponse

/-- `RestListService::Handle`. Another method leaves the response as it is. -/
def ListService.handle (service : ListService) (request : Request) (response : RestResponse) :
    Except Fault RestResponse :=
  if request.method = kGet then service.get (UrlQuery.parse request.url.query) response
  else if request.method = kPost then service.post request.content response
  else .ok response

variable {Double Mat : Type}

/-- `FaceDetectionService::Get`. -/
def get (libc : LibC Double) (_query : UrlQuery) (_response : RestResponse) :
    Except Fault RestResponse :=
  .ok { status := some .kOK
        content := writeString libc (.arrayValue [])
        media_type := ascii "application/json"
        charset := ascii "utf-8" }

end FaceDetection.Webcc
