import FaceDetection.Cxx
import FaceDetection.Json.Value
import FaceDetection.Json.Reader
import FaceDetection.Json.Writer
import FaceDetection.Base64.Spec
import FaceDetection.Base64.Decode
import FaceDetection.Ends
import FaceDetection.Json.Total
import FaceDetection.Json.Root
import FaceDetection.Service
import FaceDetection.Post
import FaceDetection.Json.Utf8
import FaceDetection.Json.StringText
import FaceDetection.Json.Tokens
import FaceDetection.Json.Text
import FaceDetection.Json.RoundTrip
import FaceDetection.Faces
import FaceDetection.Request
import FaceDetection.Table
import FaceDetection.Interleave
import FaceDetection.Webapp.Ruby
import FaceDetection.Webapp.Database
import FaceDetection.Webapp.ImagesController
import FaceDetection.Webapp.Steps
import FaceDetection.Webapp.Interference
import FaceDetection.Webapp.TempFiles
import FaceDetection.Webapp.Orphans
import FaceDetection.Webapp.Records
import FaceDetection.Webapp.Crop
import FaceDetection.Webapp.Detector
import FaceDetection.Webapp.Leftovers
import FaceDetection.Cli.Db
import FaceDetection.Cli.Main
import FaceDetection.Cli.LatestRun
import FaceDetection.Webcc.Delivery
import FaceDetection.Webcc.ChunkedReads
import FaceDetection.Webcc.Handler
import FaceDetection.Webcc.Shutdown
import FaceDetection.Webcc.Talk
import FaceDetection.Webcc.Answer
import FaceDetection.Webcc.SecondForm
import FaceDetection.Webcc.Client
