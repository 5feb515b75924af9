import Httpageboy.Lib.Str
import Httpageboy.Lib.Utf8

set_option relaxedAutoImplicit false
set_option autoImplicit false

/-!
# Status codes

The statuses of `status_code.rs` with their numeric codes and the texts of the status line.

## Main results

* `Httpageboy.StatusCode.display_spec` — every text starts with the three digits of its own code.
-/

namespace Httpageboy

/-- `StatusCode`. -/
inductive StatusCode where
  | continue'
  | switchingProtocols
  | processing
  | ok
  | created
  | accepted
  | nonAuthoritativeInformation
  | noContent
  | resetContent
  | partialContent
  | multipleChoices
  | movedPermanently
  | found
  | seeOther
  | notModified
  | useProxy
  | temporaryRedirect
  | permanentRedirect
  | badRequest
  | unauthorized
  | paymentRequired
  | forbidden
  | notFound
  | methodNotAllowed
  | notAcceptable
  | proxyAuthenticationRequired
  | requestTimeout
  | conflict
  | gone
  | lengthRequired
  | preconditionFailed
  | payloadTooLarge
  | uriTooLong
  | unsupportedMediaType
  | rangeNotSatisfiable
  | expectationFailed
  | imATeapot
  | misdirectedRequest
  | unprocessableEntity
  | locked
  | failedDependency
  | upgradeRequired
  | preconditionRequired
  | tooManyRequests
  | requestHeaderFieldsTooLarge
  | unavailableForLegalReasons
  | internalServerError
  | notImplemented
  | badGateway
  | serviceUnavailable
  | gatewayTimeout
  | httpVersionNotSupported
  | variantAlsoNegotiates
  | insufficientStorage
  | loopDetected
  | notExtended
  | networkAuthenticationRequired
  deriving DecidableEq, Repr

namespace StatusCode

/-- The discriminant, `status as u16`. -/
def code : StatusCode → ℕ
  | .continue' => 100
  | .switchingProtocols => 101
  | .processing => 102
  | .ok => 200
  | .created => 201
  | .accepted => 202
  | .nonAuthoritativeInformation => 203
  | .noContent => 204
  | .resetContent => 205
  | .partialContent => 206
  | .multipleChoices => 300
  | .movedPermanently => 301
  | .found => 302
  | .seeOther => 303
  | .notModified => 304
  | .useProxy => 305
  | .temporaryRedirect => 307
  | .permanentRedirect => 308
  | .badRequest => 400
  | .unauthorized => 401
  | .paymentRequired => 402
  | .forbidden => 403
  | .notFound => 404
  | .methodNotAllowed => 405
  | .notAcceptable => 406
  | .proxyAuthenticationRequired => 407
  | .requestTimeout => 408
  | .conflict => 409
  | .gone => 410
  | .lengthRequired => 411
  | .preconditionFailed => 412
  | .payloadTooLarge => 413
  | .uriTooLong => 414
  | .unsupportedMediaType => 415
  | .rangeNotSatisfiable => 416
  | .expectationFailed => 417
  | .imATeapot => 418
  | .misdirectedRequest => 421
  | .unprocessableEntity => 422
  | .locked => 423
  | .failedDependency => 424
  | .upgradeRequired => 426
  | .preconditionRequired => 428
  | .tooManyRequests => 429
  | .requestHeaderFieldsTooLarge => 431
  | .unavailableForLegalReasons => 451
  | .internalServerError => 500
  | .notImplemented => 501
  | .badGateway => 502
  | .serviceUnavailable => 503
  | .gatewayTimeout => 504
  | .httpVersionNotSupported => 505
  | .variantAlsoNegotiates => 506
  | .insufficientStorage => 507
  | .loopDetected => 508
  | .notExtended => 510
  | .networkAuthenticationRequired => 511

/-- The text `Display` writes: the code and the reason phrase. -/
def text : StatusCode → String
  | .continue' => "100 Continue"
  | .switchingProtocols => "101 Switching Protocols"
  | .processing => "102 Processing"
  | .ok => "200 OK"
  | .created => "201 Created"
  | .accepted => "202 Accepted"
  | .nonAuthoritativeInformation => "203 Non‑Authoritative Information"
  | .noContent => "204 No Content"
  | .resetContent => "205 Reset Content"
  | .partialContent => "206 Partial Content"
  | .multipleChoices => "300 Multiple Choices"
  | .movedPermanently => "301 Moved Permanently"
  | .found => "302 Found"
  | .seeOther => "303 See Other"
  | .notModified => "304 Not Modified"
  | .useProxy => "305 Use Proxy"
  | .temporaryRedirect => "307 Temporary Redirect"
  | .permanentRedirect => "308 Permanent Redirect"
  | .badRequest => "400 Bad Request"
  | .unauthorized => "401 Unauthorized"
  | .paymentRequired => "402 Payment Required"
  | .forbidden => "403 Forbidden"
  | .notFound => "404 Not Found"
  | .methodNotAllowed => "405 Method Not Allowed"
  | .notAcceptable => "406 Not Acceptable"
  | .proxyAuthenticationRequired => "407 Proxy Authentication Required"
  | .requestTimeout => "408 Request Timeout"
  | .conflict => "409 Conflict"
  | .gone => "410 Gone"
  | .lengthRequired => "411 Length Required"
  | .preconditionFailed => "412 Precondition Failed"
  | .payloadTooLarge => "413 Payload Too Large"
  | .uriTooLong => "414 URI Too Long"
  | .unsupportedMediaType => "415 Unsupported Media Type"
  | .rangeNotSatisfiable => "416 Range Not Satisfiable"
  | .expectationFailed => "417 Expectation Failed"
  | .imATeapot => "418 I'm a Teapot"
  | .misdirectedRequest => "421 Misdirected Request"
  | .unprocessableEntity => "422 Unprocessable Entity"
  | .locked => "423 Locked"
  | .failedDependency => "424 Failed Dependency"
  | .upgradeRequired => "426 Upgrade Required"
  | .preconditionRequired => "428 Precondition Required"
  | .tooManyRequests => "429 Too Many Requests"
  | .requestHeaderFieldsTooLarge => "431 Request Header Fields Too Large"
  | .unavailableForLegalReasons => "451 Unavailable For Legal Reasons"
  | .internalServerError => "500 Internal Server Error"
  | .notImplemented => "501 Not Implemented"
  | .badGateway => "502 Bad Gateway"
  | .serviceUnavailable => "503 Service Unavailable"
  | .gatewayTimeout => "504 Gateway Timeout"
  | .httpVersionNotSupported => "505 HTTP Version Not Supported"
  | .variantAlsoNegotiates => "506 Variant Also Negotiates"
  | .insufficientStorage => "507 Insufficient Storage"
  | .loopDetected => "508 Loop Detected"
  | .notExtended => "510 Not Extended"
  | .networkAuthenticationRequired => "511 Network Authentication Required"

/-- The text of the status line, as characters. -/
def display (status : StatusCode) : Str := status.text.toList

/-- Every text starts with the three digits of its own code and a space, and contains no line
break. -/
lemma display_spec (status : StatusCode) :
    status.display.take 4 = Nat.toDigits 10 status.code ++ [' '] ∧
      '\r' ∉ status.display ∧ '\n' ∉ status.display := by
  cases status <;> (unfold display text; rewrite [String.toList_ofList]; decide)

end StatusCode

end Httpageboy
